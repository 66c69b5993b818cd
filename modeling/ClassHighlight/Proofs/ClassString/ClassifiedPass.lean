import ClassHighlight.ClassString.ClassifiedPass
import ClassHighlight.Proofs.ClassString.BracketCount
import ClassHighlight.Proofs.ClassString.Token

/-!
# One pass finds the parts of a token

A pass over the bytes of a token reads each character with the depth and the quote that a scan of its
characters has there. All it looks for are ASCII characters, so it does nothing at the bytes of any
other one. With each character the parts found so far and those that the scan finds in the rest are
the parts of the token.
-/

namespace ClassHighlight

namespace Classified

namespace Pass

/-! ## Bytes -/

section Bytes

variable {bytes : List UInt8} {p : Pass} {i : Nat}

theorem readFrom_append (bytes : List UInt8) (p : Pass) (i : Nat) (first later : List UInt8) :
    readFrom bytes p i (first ++ later) =
      readFrom bytes (readFrom bytes p i first) (i + first.length) later := by
  induction first generalizing p i with
  | nil => rfl
  | cons b first ih =>
    rw [List.cons_append, readFrom, readFrom, ih, List.length_cons, Nat.add_assoc, Nat.add_comm 1]

/-- Nothing is done at a byte that is not ASCII. -/
theorem read_of_not_ascii {b : UInt8} (h : ¬ b < 0x80) : p.read bytes i b = p := by
  have hne : ∀ d : Char, d.toUInt8 < 0x80 → (b == d.toUInt8) = false := by
    intro d hd
    rw [beq_eq_false_iff_ne]
    rintro rfl
    exact h hd
  cases hquote : p.quote with
  | some q => simp [read, hquote, Quote.byte_ne_of_not_ascii h q]
  | none =>
    have hsame : { p with quote := none } = p := by rw [← hquote]
    simp only [read, hquote, readFree, hne '[' (by decide), hne ']' (by decide),
      hne ':' (by decide), Quote.ofByte?_of_not_ascii h, hsame]
    simp

theorem readFrom_of_not_ascii {bs : List UInt8} (h : ∀ b ∈ bs, ¬ b < 0x80) :
    readFrom bytes p i bs = p := by
  induction bs generalizing i with
  | nil => rfl
  | cons b bs ih =>
    rw [List.forall_mem_cons] at h
    rw [readFrom, read_of_not_ascii h.1, ih h.2]

end Bytes

/-! ## Characters -/

section Characters

variable {bytes : List UInt8} {p next : Pass} {n : Nesting} {opened offset : Nat} {c : Char}

/-- A pass has the depth and the quote of a scan, and it knows where the outermost bracket that is
open has opened. -/
structure Follows (p : Pass) (n : Nesting) (opened offset : Nat) : Prop where
  /-- As many brackets are open. -/
  depth_eq : p.depth = n.depth
  /-- The same quote is open. -/
  quote_eq : p.quote = n.quote
  /-- Within brackets the outermost one opened at the same place, before the place at hand. -/
  opened_eq : n.isOutside = false → p.opened = opened ∧ opened ≤ offset

/-- A pass goes over a character as the scan does, and finds the same parts that end with it. -/
structure Reads (p next : Pass) (n : Nesting) (opened offset : Nat) (c : Char) : Prop where
  /-- Behind the character it has the depth and the quote of the scan. -/
  follows : next.Follows (n.step c) (if n.isOutside then offset else opened)
    (offset + c.utf8Size)
  /-- A variant ends with the character if it ends one for the scan. -/
  variantLength_eq : next.variantLength =
    if c == ':' && n.isOutside && !n.escaped then offset + c.utf8Size else p.variantLength
  /-- So does an arbitrary value. -/
  arbitrary_eq : next.arbitrary = p.arbitrary ++
    if !n.isOutside && (n.step c).isOutside then [⟨opened, offset + c.utf8Size⟩] else []

/-- A character that changes neither the depth nor the quote, and ends no variant, is passed over. -/
theorem Follows.reads_self (h : p.Follows n opened offset) (hdepth : (n.step c).depth = n.depth)
    (hquote : (n.step c).quote = n.quote)
    (hcolon : (c == ':' && n.isOutside && !n.escaped) = false) : p.Reads p n opened offset c := by
  have hsame : (n.step c).isOutside = n.isOutside := by
    rw [Nesting.isOutside, hdepth, Nesting.isOutside]
  constructor
  case follows =>
    refine ⟨h.depth_eq.trans hdepth.symm, h.quote_eq.trans hquote.symm, ?_⟩
    intro hin
    rw [hsame] at hin
    obtain ⟨hopened, hle⟩ := h.opened_eq hin
    rw [hin]
    exact ⟨hopened, by simp only [Bool.false_eq_true, if_false]; omega⟩
  case variantLength_eq => rw [hcolon, if_neg Bool.false_ne_true]
  case arbitrary_eq =>
    rw [hsame, Bool.not_and_self, if_neg Bool.false_ne_true, List.append_nil]

/-- Within a quote only the quote itself can be ended. -/
theorem Follows.reads_quoted (h : p.Follows n opened offset) {q : Quote}
    (hquote : n.quote = some q) (hin : n.isOutside = false) :
    p.Reads (if c == q.char && !n.escaped then { p with quote := none } else p) n opened offset
      c := by
  obtain ⟨hdepth, hsame, hopened⟩ := h
  obtain ⟨hopened, hle⟩ := hopened hin
  have hnext : (n.step c).depth = n.depth := by
    unfold Nesting.step
    simp only [hquote]
  have hstep : (n.step c).quote = if c == q.char && !n.escaped then none else some q := by
    unfold Nesting.step
    simp only [hquote]
  have hstill : (n.step c).isOutside = false := by
    rw [Nesting.isOutside, hnext]
    exact hin
  constructor
  case follows =>
    rw [hin]
    refine ⟨?_, ?_, fun _ => ⟨?_, by simp only [Bool.false_eq_true, if_false]; omega⟩⟩
    · rw [hnext, ← hdepth]
      split <;> rfl
    · rw [hstep]
      split
      · rfl
      · exact hsame.trans hquote
    · rw [← hopened]
      split <;> rfl
  case variantLength_eq =>
    rw [hin, Bool.and_false, Bool.false_and, if_neg Bool.false_ne_true]
    split <;> rfl
  case arbitrary_eq =>
    rw [hstill, Bool.and_false, if_neg Bool.false_ne_true, List.append_nil]
    split <;> rfl

section Free

variable (h : p.Follows n opened offset) (hnone : n.quote = none) (hfree : n.escaped = false)

include h hnone hfree

/-- An opening bracket is the outermost one if none is open. -/
theorem Follows.reads_opening : p.Reads (p.readOpening offset) n opened offset '[' := by
  obtain ⟨hdepth, hquote, hopened⟩ := h
  have hnext : n.step '[' = ⟨n.depth + 1, none, false⟩ := by
    simp [Nesting.step, hnone, hfree]
  have hin : (n.step '[').isOutside = false := by
    rw [hnext]
    rfl
  constructor
  case follows =>
    rw [hnext]
    refine ⟨congrArg (· + 1) hdepth, hquote.trans hnone, fun _ => ?_⟩
    show (if p.depth = 0 then offset else p.opened) = _ ∧ _
    cases hout : n.isOutside with
    | true =>
      rw [if_pos (hdepth.trans (Nesting.isOutside_iff.1 hout))]
      exact ⟨rfl, Nat.le_add_right _ _⟩
    | false =>
      have hpos := Nesting.isInside_iff.1 hout
      obtain ⟨hsame, hle⟩ := hopened hout
      rw [if_neg (by omega)]
      exact ⟨hsame, Nat.le_add_right_of_le hle⟩
  case variantLength_eq => rfl
  case arbitrary_eq =>
    rw [hin, Bool.and_false, if_neg Bool.false_ne_true, List.append_nil]
    rfl

/-- A closing bracket ends an arbitrary value if it closes the outermost one. -/
theorem Follows.reads_closing (hin : n.isOutside = false) :
    p.Reads (p.readClosing offset) n opened offset ']' := by
  obtain ⟨hdepth, hquote, hopened⟩ := h
  obtain ⟨hsame, hle⟩ := hopened hin
  have hnext : n.step ']' = ⟨n.depth - 1, none, false⟩ := by
    simp [Nesting.step, hnone, hfree]
  have hout : (n.step ']').isOutside = decide (n.depth - 1 = 0) := by
    rw [hnext]
    rfl
  have hbounds : Span.ofBounds p.opened (offset + 1) = ⟨opened, offset + ']'.utf8Size⟩ := by
    rw [Span.ofBounds, hsame, Nat.max_eq_right (Nat.le_succ_of_le hle)]
    rfl
  unfold readClosing
  simp only [hdepth, hbounds]
  constructor
  case follows =>
    rw [hnext, hin]
    refine ⟨?_, ?_, fun _ => ⟨?_, Nat.le_add_right_of_le hle⟩⟩
    · split <;> rfl
    · split <;> exact hquote.trans hnone
    · split <;> exact hsame
  case variantLength_eq => split <;> rfl
  case arbitrary_eq =>
    rw [hin, hout, Bool.not_false, Bool.true_and]
    by_cases hclosed : n.depth - 1 = 0
    · rw [if_pos hclosed, if_pos (decide_eq_true hclosed)]
    · rw [if_neg hclosed, if_neg (by simpa using hclosed), List.append_nil]

/-- A colon outside brackets ends a variant. -/
theorem Follows.reads_colon (hout : n.isOutside = true) :
    p.Reads { p with variantLength := offset + 1 } n opened offset ':' := by
  have hnext : n.step ':' = n := by
    obtain ⟨depth, quote, escaped⟩ := n
    subst hnone hfree
    simp [Nesting.step, hout]
  constructor
  case follows =>
    rw [hnext]
    refine ⟨h.depth_eq, h.quote_eq, fun hin => ?_⟩
    rw [hout] at hin
    cases hin
  case variantLength_eq =>
    rw [hout, hfree]
    rfl
  case arbitrary_eq =>
    rw [hnext, Bool.not_and_self, if_neg Bool.false_ne_true, List.append_nil]

/-- Within brackets any other character opens its quote, if it has one. -/
theorem Follows.reads_inside (hin : n.isOutside = false) (hopening : c ≠ '[') (hclosing : c ≠ ']') :
    p.Reads { p with quote := Quote.ofChar? c } n opened offset c := by
  obtain ⟨hdepth, hquote, hopened⟩ := h
  obtain ⟨hsame, hle⟩ := hopened hin
  have hnext : (n.step c).depth = n.depth ∧ (n.step c).quote = Quote.ofChar? c := by
    simp [Nesting.step, hnone, hfree, hopening, hclosing, hin]
  have hstill : (n.step c).isOutside = false := by
    rw [Nesting.isOutside, hnext.1]
    exact hin
  constructor
  case follows =>
    rw [hin]
    exact ⟨hdepth.trans hnext.1.symm, hnext.2.symm, fun _ => ⟨hsame, Nat.le_add_right_of_le hle⟩⟩
  case variantLength_eq =>
    rw [hin, Bool.and_false, Bool.false_and, if_neg Bool.false_ne_true]
  case arbitrary_eq =>
    rw [hstill, Bool.and_false, if_neg Bool.false_ne_true, List.append_nil]

/-- A character that is neither escaped nor in a quote is read by its byte. -/
theorem Follows.reads_free (hascii : c.val < 0x80) :
    p.Reads (p.readFree offset c.toUInt8) n opened offset c := by
  have hbyte : ∀ d : Char, d.val < 0x80 → (c.toUInt8 == d.toUInt8) = (c == d) := by
    intro d hd
    rw [Bool.eq_iff_iff, beq_iff_eq, beq_iff_eq, Text.toUInt8_eq_iff hascii hd]
  have hquote : Quote.ofByte? c.toUInt8 = Quote.ofChar? c :=
    Quote.ofByte?_eq_ofChar? fun q => Text.toUInt8_eq_iff hascii q.char_lt_ascii
  unfold readFree
  simp only [hbyte '[' (by decide), hbyte ']' (by decide), hbyte ':' (by decide), hquote]
  by_cases hopening : c = '['
  · subst hopening
    exact h.reads_opening hnone hfree
  · rw [if_neg (by simpa using hopening)]
    cases hout : n.isOutside with
    | false =>
      have hpos := Nesting.isInside_iff.1 hout
      rw [← h.depth_eq] at hpos
      by_cases hclosing : c = ']'
      · subst hclosing
        rw [if_pos (by simpa using hpos)]
        exact h.reads_closing hnone hfree hout
      · rw [if_neg (by simp [hclosing]), if_neg (by simp; omega), if_pos hpos]
        exact h.reads_inside hnone hfree hout hopening hclosing
    | true =>
      -- outside brackets a closing one is an ordinary character
      have hzero := Nesting.isOutside_iff.1 hout
      have hdepth := h.depth_eq.trans hzero
      rw [if_neg (by simp [hdepth])]
      by_cases hcolon : c = ':'
      · subst hcolon
        rw [if_pos (by simp [hdepth])]
        exact h.reads_colon hnone hfree hout
      · rw [if_neg (by simp [hcolon]), if_neg (by omega)]
        apply h.reads_self
        · by_cases hclosing : c = ']' <;>
            simp [Nesting.step, hnone, hfree, hopening, hclosing, hout, hzero]
        · by_cases hclosing : c = ']' <;>
            simp [Nesting.step, hnone, hfree, hopening, hclosing, hout]
        · simp [hcolon]

end Free

/-- A pass goes over the bytes of a character as the scan goes over the character. -/
theorem Follows.reads (h : p.Follows n opened offset) (hquotes : n.QuotesInside)
    (hescaped : n.escaped = isEscaped bytes offset) (c : Char) :
    p.Reads (readFrom bytes p offset (String.utf8EncodeChar c)) n opened offset c := by
  by_cases hascii : c.val < 0x80
  · rw [Text.utf8EncodeChar_of_ascii hascii, readFrom, readFrom, read, ← hescaped, h.quote_eq]
    cases hquote : n.quote with
    | some q =>
      have hbyte : (c.toUInt8 == q.byte) = (c == q.char) := by
        rw [Bool.eq_iff_iff, beq_iff_eq, beq_iff_eq]
        exact Text.toUInt8_eq_iff hascii q.char_lt_ascii
      simp only [hbyte]
      exact h.reads_quoted hquote (hquotes.isInside hquote)
    | none =>
      cases hfree : n.escaped with
      | true =>
        simp only [if_true]
        apply h.reads_self
        · simp [Nesting.step, hquote, hfree]
        · simp [Nesting.step, hquote, hfree]
        · rw [hfree, Bool.not_true, Bool.and_false]
      | false =>
        simp only [Bool.false_eq_true, if_false]
        exact h.reads_free hquote hfree hascii
  · -- none of its bytes is ASCII
    have hbytes : ∀ b ∈ String.utf8EncodeChar c, ¬ b < 0x80 := by
      intro b hb hlt
      have hone := Char.utf8Size_eq_one_iff.1 (Text.utf8Size_of_ascii hb hlt)
      exact hascii (Nat.lt_succ_of_le hone)
    have hcolon : c ≠ ':' := by
      rintro rfl
      exact hascii (by decide)
    obtain ⟨hdepth, hquote⟩ := Nesting.step_of_not_ascii hascii n
    rw [readFrom_of_not_ascii hbytes]
    exact h.reads_self hdepth hquote (by simp [hcolon])

end Characters

/-! ## Tokens -/

/-- A pass that reads a token from some place on finds the parts that the scan finds there. -/
theorem Follows.readFrom_spec {text before t : Text} {p : Pass} {opened : Nat}
    (hsplit : text = before ++ t)
    (h : p.Follows (Nesting.start.after before) opened (Text.byteLength before)) :
    (readFrom (Text.bytes text) p (Text.byteLength before) (Text.bytes t)).variantLength =
        afterLastColon (Nesting.start.after before) p.variantLength (Text.byteLength before) t ∧
      (readFrom (Text.bytes text) p (Text.byteLength before) (Text.bytes t)).arbitrary =
        p.arbitrary ++
          brackets (Nesting.start.after before) opened (Text.byteLength before) t := by
  induction t generalizing p before opened with
  | nil => exact ⟨rfl, (List.append_nil _).symm⟩
  | cons c rest ih =>
    have hlength : Text.byteLength before + c.utf8Size = Text.byteLength (before ++ [c]) := by simp
    have hbytes : Text.bytes (c :: rest) = String.utf8EncodeChar c ++ Text.bytes rest := by
      simp [Text.bytes]
    obtain ⟨hfollows, hvariant, harbitrary⟩ :=
      h.reads (Nesting.quotesInside_after_start before) (Nesting.escaped_after_front hsplit) c
    rw [← Nesting.after_concat, hlength] at hfollows
    obtain ⟨hvariant', harbitrary'⟩ := ih (by rw [hsplit, List.append_assoc]; rfl) hfollows
    rw [hbytes, readFrom_append, String.length_utf8EncodeChar, hlength, afterLastColon, brackets,
      hlength, ← Nesting.after_concat]
    rw [← Nesting.after_concat, hlength] at harbitrary
    rw [hlength] at hvariant
    constructor
    · rw [hvariant', hvariant]
    · rw [harbitrary', harbitrary, List.append_assoc]
      split <;> rfl

/-- One pass over the bytes of a token finds its parts. -/
theorem classify_eq (token : Token) : classify token = ofToken token := by
  have hstart : initial.Follows (Nesting.start.after []) 0 (Text.byteLength []) :=
    ⟨rfl, rfl, fun _ => ⟨rfl, Nat.le_refl _⟩⟩
  obtain ⟨hvariant, harbitrary⟩ := hstart.readFrom_spec (List.nil_append token.text).symm
  have himportant : ((Text.bytes token.text)[(ofToken token).variantLength]? ==
      some '!'.toUInt8) = (ofToken token).isImportant := by
    rw [Bool.eq_iff_iff, beq_iff_eq, isImportant_iff]
  change (readFrom _ initial 0 _).variantLength = (ofToken token).variantLength at hvariant
  change (readFrom _ initial 0 _).arbitrary = (ofToken token).arbitrary at harbitrary
  rw [classify, hvariant, harbitrary, himportant]
  rfl

end Pass

end Classified

end ClassHighlight
