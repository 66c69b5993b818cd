import Mathlib.Data.Nat.Count
import ClassHighlight.Proofs.ClassString.Nesting
import ClassHighlight.Proofs.Source.RegionWalk

/-!
# Counting brackets

The scan of a token keeps the number of open brackets. From an opening bracket on that number is what
counting gives: the brackets opened so far less those closed so far, where brackets count that are
neither escaped nor quoted. The count is over bytes, and of a character that takes several bytes
none counts.
-/

namespace ClassHighlight

section Count

variable (bs : List UInt8) (start : Nat)

/-- The quote that is open before an index, if quotes count from an offset on. -/
def openFrom (i : Nat) : QuoteState := openAt bs (fun j => decide (j < start)) i

/-- A bracket stands at an index, neither escaped nor in a quote that opened behind an offset. -/
def BracketAt (c : Char) (i : Nat) : Prop :=
  start ≤ i ∧ bs[i]? = some c.toUInt8 ∧ isEscaped bs i = false ∧ openFrom bs start i = none

instance (c : Char) (i : Nat) : Decidable (BracketAt bs start c i) :=
  inferInstanceAs (Decidable (_ ∧ _ ∧ _ ∧ _))

/-- The number of brackets from an offset up to an index. -/
def bracketCount (c : Char) (i : Nat) : Nat := Nat.count (BracketAt bs start c) i

theorem openFrom_start : openFrom bs start start = none := by
  have hskipped : ∀ i ≤ start, openFrom bs start i = none := by
    intro i hi
    induction i with
    | zero => rfl
    | succ i ih =>
      have hlt : decide (i < start) = true := decide_eq_true hi
      rw [openFrom, openAt_succ_of_skipped hlt]
      exact ih (Nat.le_of_succ_le hi)
  exact hskipped start (Nat.le_refl _)

theorem bracketCount_start (c : Char) : bracketCount bs start c start = 0 := by
  rw [bracketCount, Nat.count_iff_forall_not]
  rintro i hi ⟨hle, -⟩
  omega

end Count

section Step

variable {bs : List UInt8} {start i : Nat} {b : UInt8}

theorem openFrom_succ (hle : start ≤ i) (hb : bs[i]? = some b) :
    openFrom bs start (i + 1) = ((openFrom bs start i).step (isEscaped bs i) b).1 := by
  have hread : decide (i < start) = false := decide_eq_false (Nat.not_lt.2 hle)
  rw [openFrom, openAt, hb]
  simp only [hread]
  rfl

theorem bracketCount_succ (c : Char) :
    bracketCount bs start c (i + 1) =
      bracketCount bs start c i + if BracketAt bs start c i then 1 else 0 :=
  Nat.count_succ _ i

end Step

/-! ## The bytes of a character -/

section Character

variable {t front rest : Text} {c : Char}

theorem Text.exists_byte (h : t = front ++ c :: rest) {k : Nat} (hk : k < c.utf8Size) :
    ∃ b ∈ String.utf8EncodeChar c, (bytes t)[byteLength front + k]? = some b := by
  have hat : t.HasAt (byteLength front) [c] := ⟨front, rest, by simp [h], rfl⟩
  have hlength : k < (String.utf8EncodeChar c).length := by
    rwa [String.length_utf8EncodeChar]
  refine ⟨_, List.getElem_mem hlength, ?_⟩
  rw [hat.getElem?_bytes (by rw [byteLength_cons]; omega), bytes_singleton,
    List.getElem?_eq_getElem hlength]

/-- The first byte of a character tells it from each ASCII character. -/
theorem Text.exists_first_byte (h : t = front ++ c :: rest) :
    ∃ b, (bytes t)[byteLength front]? = some b ∧
      ∀ d : Char, d.val < 0x80 → (b = d.toUInt8 ↔ c = d) := by
  rcases exists_byte h c.utf8Size_pos with ⟨b, hmem, hb⟩
  refine ⟨b, hb, ?_⟩
  intro d hd
  constructor
  · rintro rfl
    exact eq_of_ascii_mem hd hmem
  · rintro rfl
    rwa [utf8EncodeChar_of_ascii hd, List.mem_singleton] at hmem

/-- The other bytes of a character are not ASCII. -/
theorem Text.exists_later_byte (h : t = front ++ c :: rest) {k : Nat} (hpos : 0 < k)
    (hk : k < c.utf8Size) : ∃ b, (bytes t)[byteLength front + k]? = some b ∧ ¬ b < 0x80 := by
  rcases exists_byte h hk with ⟨b, hmem, hb⟩
  refine ⟨b, hb, ?_⟩
  intro hascii
  have hone := utf8Size_of_ascii hmem hascii
  omega

end Character

theorem Quote.char_lt_ascii (q : Quote) : q.char.val < 0x80 := by
  cases q <;> decide

/-- A byte that is not ASCII is no delimiter. -/
theorem Quote.byte_ne_of_not_ascii {b : UInt8} (h : ¬ b < 0x80) (q : Quote) : b ≠ q.byte := by
  rintro rfl
  revert h
  cases q <;> decide

theorem Quote.ofByte?_of_not_ascii {b : UInt8} (h : ¬ b < 0x80) : ofByte? b = none := by
  rw [ofByte?, List.find?_eq_none]
  intro q _ heq
  rw [beq_iff_eq] at heq
  exact byte_ne_of_not_ascii h q heq.symm

theorem QuoteState.step_of_not_ascii {b : UInt8} (h : ¬ b < 0x80) (state : QuoteState)
    (escaped : Bool) : (state.step escaped b).1 = state := by
  cases state with
  | some q => simp [step, Quote.byte_ne_of_not_ascii h q]
  | none => simp [step, Quote.ofByte?_of_not_ascii h]

/-! ## One character -/

namespace Nesting

variable {n : Nesting} {c : Char}

/-- A character that is not ASCII changes neither the depth nor the quote. -/
theorem step_of_not_ascii (h : ¬ c.val < 0x80) (n : Nesting) :
    (n.step c).depth = n.depth ∧ (n.step c).quote = n.quote := by
  have hne : ∀ d : Char, d.val < 0x80 → c ≠ d := by
    rintro d hd rfl
    exact h hd
  have hquote : ∀ q : Quote, c ≠ q.char := fun q => hne _ q.char_lt_ascii
  have hnone : Quote.ofChar? c = none := by
    rw [Quote.ofChar?, List.find?_eq_none]
    intro q _ heq
    exact hquote q (beq_iff_eq.1 heq).symm
  cases hopen : n.quote with
  | some q => simp [step, hopen, hquote q]
  | none =>
    unfold step
    simp only [hopen, beq_eq_false_iff_ne.2 (hne '[' (by decide)),
      beq_eq_false_iff_ne.2 (hne ']' (by decide)), hnone]
    repeat' split
    all_goals simp_all

/-- Within brackets the scan follows quotes as a walk over bytes does. -/
theorem quote_step (hin : n.isOutside = false ∨ c = '[') {b : UInt8}
    (hb : ∀ q : Quote, b = q.byte ↔ c = q.char) :
    (n.step c).quote = (n.quote.step n.escaped b).1 := by
  have hfound := Quote.ofByte?_eq_ofChar? hb
  cases hquote : n.quote with
  | some q =>
    have hcloses : (b == q.byte) = (c == q.char) := by
      rw [Bool.eq_iff_iff, beq_iff_eq, beq_iff_eq, hb q]
    simp only [step, hquote, QuoteState.step, hcloses]
    split <;> rfl
  | none =>
    have hbracket : Quote.ofChar? '[' = none ∧ Quote.ofChar? ']' = none := by decide
    simp only [step, hquote, QuoteState.step, hfound]
    cases hescaped : n.escaped with
    | true => cases Quote.ofChar? c <;> simp
    | false =>
      by_cases hopen : c = '['
      · simp [hopen, hbracket.1]
      · by_cases hclose : c = ']'
        · simp [hclose, hbracket.2]
        · rw [hin.resolve_right hopen]
          cases Quote.ofChar? c <;> simp [hopen, hclose]

/-- Within brackets the depth changes at brackets that are neither escaped nor quoted. -/
theorem depth_step (hin : n.isOutside = false ∨ c = '[') :
    (n.step c).depth + (if c = ']' ∧ n.escaped = false ∧ n.quote = none then 1 else 0) =
      n.depth + (if c = '[' ∧ n.escaped = false ∧ n.quote = none then 1 else 0) := by
  rw [isInside_iff] at hin
  rcases step_cases n c with ⟨hquote, hdepth⟩ | ⟨hquote, hescaped, hdepth, -⟩ |
    ⟨hquote, hescaped, rfl, hdepth, -⟩ | ⟨hquote, hescaped, rfl, hdepth, -⟩ |
    ⟨hquote, hescaped, hopen, hclose, hdepth, -⟩
  · simp [hquote, hdepth]
  · simp [hescaped, hdepth]
  · simp [hquote, hescaped, hdepth]
  · have hpos : 0 < n.depth := hin.resolve_right (by decide)
    simp only [hquote, hescaped, hdepth]
    simp
    omega
  · simp [hopen, hclose, hdepth]

/-- The scan agrees with the count of brackets from an offset up to an index. -/
structure Counts (n : Nesting) (bs : List UInt8) (start i : Nat) : Prop where
  /-- The same quote is open. -/
  quote_eq : n.quote = openFrom bs start i
  /-- The brackets that are open are those that were opened less those that were closed. -/
  depth_eq : n.depth + bracketCount bs start ']' i = bracketCount bs start '[' i

section Counts

variable {t front rest : Text} {offset : Nat}

/-- Reading a character within brackets keeps the scan in accord with the count, at each byte of the
character. -/
theorem Counts.step (hsplit : t = front ++ c :: rest)
    (h : (start.after front).Counts (Text.bytes t) offset (Text.byteLength front))
    (hle : offset ≤ Text.byteLength front)
    (hin : (start.after front).isOutside = false ∨ c = '[') {k : Nat} (hk : k < c.utf8Size) :
    ((start.after front).step c).Counts (Text.bytes t) offset
      (Text.byteLength front + k + 1) := by
  have hescaped : (start.after front).escaped =
      isEscaped (Text.bytes t) (Text.byteLength front) := escaped_after_front hsplit
  generalize start.after front = n at h hin hescaped ⊢
  induction k with
  | zero =>
    -- the first byte is read as the character is
    rcases Text.exists_first_byte hsplit with ⟨b, hb, hascii⟩
    have hbracket : ∀ d : Char, d.val < 0x80 →
        (BracketAt (Text.bytes t) offset d (Text.byteLength front) ↔
          c = d ∧ n.escaped = false ∧ n.quote = none) := by
      intro d hd
      rw [BracketAt, hb, Option.some_inj, hascii d hd, hescaped, h.quote_eq]
      exact and_iff_right hle
    constructor
    · rw [openFrom_succ hle hb, ← h.quote_eq, ← hescaped]
      exact quote_step hin fun q => hascii q.char q.char_lt_ascii
    · have hdepth := depth_step hin
      have hcount := h.depth_eq
      rw [bracketCount_succ, bracketCount_succ]
      simp only [hbracket ']' (by decide), hbracket '[' (by decide)]
      omega
  | succ k ih =>
    -- the others are not ASCII
    rcases Text.exists_later_byte hsplit (Nat.succ_pos k) hk with ⟨b, hb, hnot⟩
    have hbracket : ∀ d : Char, d.toUInt8 < 0x80 →
        ¬ BracketAt (Text.bytes t) offset d (Text.byteLength front + (k + 1)) := by
      rintro d hd ⟨-, hbyte, -⟩
      rw [hb, Option.some_inj] at hbyte
      subst hbyte
      exact hnot hd
    rcases ih (by omega) with ⟨hquote, hdepth⟩
    constructor
    · rw [hquote, openFrom_succ (by omega) hb, QuoteState.step_of_not_ascii hnot]
      rfl
    · rw [bracketCount_succ, bracketCount_succ, if_neg (hbracket ']' (by decide)),
        if_neg (hbracket '[' (by decide))]
      exact hdepth

variable {closed part behind : Text}

/-- From a place outside brackets on the scan agrees with the count as long as it is within them. -/
theorem counts_after (hsplit : t = closed ++ part ++ behind)
    (hout : (start.after closed).isOutside = true)
    (hin : (start.after closed).StaysInside part) :
    (start.after (closed ++ part)).Counts (Text.bytes t) (Text.byteLength closed)
      (Text.byteLength (closed ++ part)) := by
  induction part using List.reverseRecOn generalizing behind with
  | nil =>
    have hzero := isOutside_iff.1 hout
    rw [List.append_nil]
    constructor
    · rw [openFrom_start]
      exact quotesInside_after_start closed hzero
    · rw [bracketCount_start, bracketCount_start, hzero]
  | append_singleton part c ih =>
    have hpos := c.utf8Size_pos
    have hwhole : t = closed ++ part ++ c :: behind := by
      rw [hsplit]
      simp only [List.append_assoc, List.singleton_append]
    have hopens := (hin.step hout).2
    rw [← after_append] at hopens
    have hread := (ih hwhole hin.append_left).step hwhole
      (by rw [Text.byteLength_append]; omega) hopens (Nat.sub_lt hpos Nat.one_pos)
    have hlength : Text.byteLength (closed ++ part) + (c.utf8Size - 1) + 1 =
        Text.byteLength (closed ++ (part ++ [c])) := by
      simp only [Text.byteLength_append, Text.byteLength_cons, Text.byteLength_nil]
      omega
    rw [hlength] at hread
    rw [← List.append_assoc] at hread ⊢
    rw [after_concat]
    exact hread

/-- Within brackets more of them were opened than closed. -/
theorem count_lt_of_staysInside (hsplit : t = closed ++ part ++ behind)
    (hout : (start.after closed).isOutside = true)
    (hin : (start.after closed).StaysInside part) {i : Nat} (hlt : Text.byteLength closed < i)
    (hle : i ≤ Text.byteLength (closed ++ part)) :
    bracketCount (Text.bytes t) (Text.byteLength closed) ']' i <
      bracketCount (Text.bytes t) (Text.byteLength closed) '[' i := by
  rw [Text.byteLength_append] at hle
  have hchar : i - Text.byteLength closed - 1 < Text.byteLength part := by omega
  -- the scan behind the character of the byte before agrees with the count
  rcases Text.exists_char_at hchar with ⟨first, c, later, k, rfl, hk, hwithin⟩
  have hsplit' : t = closed ++ first ++ (c :: later ++ behind) := by
    rw [hsplit]
    simp only [List.append_assoc]
  rcases hin.step hout with ⟨hinside, hopens⟩
  rw [← after_append] at hinside hopens
  have hcounts := (counts_after hsplit' hout hin.append_left).step hsplit'
    (by rw [Text.byteLength_append]; omega) hopens hwithin
  have hi : Text.byteLength (closed ++ first) + k + 1 = i := by
    rw [Text.byteLength_append]
    omega
  have hdepth := hcounts.depth_eq
  rw [isInside_iff] at hinside
  rw [hi] at hdepth
  omega

end Counts

end Nesting

end ClassHighlight
