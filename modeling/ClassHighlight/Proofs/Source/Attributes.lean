import ClassHighlight.Proofs.Source.Search
import ClassHighlight.Source.Candidate

/-!
# Where attributes stand

`IsClassAttribute` says when a class attribute stands at a place of a document: its name with the
boundaries of an attribute on both sides, an equals sign, and a value between quotation marks, with
the name and the start of the value outside comments. The search finds the value exactly there.

`IsAttributeAt` is what keeps attributes apart. Between a name and its value there is a gap, in which
no other name starts, and the value ends at the next quotation mark; so each value ends before the
next one starts.
-/

namespace ClassHighlight

/-- A byte that may stand between the name of an attribute and its value. -/
def isGapByte (b : UInt8) : Bool :=
  isMarkupBlank b || b == '='.toUInt8 || b == Quote.double.byte

/-- A class attribute of a document: its name, a gap, and its value between quotation marks. -/
structure IsAttributeAt (bs : List UInt8) (name : Text) (start : Nat) (body : Span) : Prop where
  /-- It is a class attribute. -/
  isClass : name ∈ Source.classAttributes
  /-- The name stands at the start. -/
  named : Text.bytes name <+: bs.drop start
  /-- The name is not the end of a longer one. -/
  apart : ∀ b, 1 ≤ start → bs[start - 1]? = some b → Source.isAttributeByte b = false
  /-- The value stands behind the name, an equals sign and a quotation mark. -/
  behind : start + (Text.bytes name).length + 1 < body.start
  /-- Between the name and the value there are an equals sign, a quotation mark and blanks. -/
  gap : ∀ j, start + (Text.bytes name).length ≤ j → j < body.start →
    ∃ b, bs[j]? = some b ∧ isGapByte b = true
  /-- The byte before the value is a quotation mark. -/
  opening : bs[body.start - 1]? = some Quote.double.byte
  /-- The value does not end before it starts. -/
  ordered : body.start ≤ body.stop
  /-- There is no quotation mark in the value. -/
  unquoted : ∀ j, body.start ≤ j → j < body.stop → bs[j]? ≠ some Quote.double.byte
  /-- The byte behind the value is a quotation mark. -/
  closing : bs[body.stop]? = some Quote.double.byte

namespace Source

/-! ## Names -/

/-- The bytes of a name of a class attribute are those of attribute names. -/
theorem isAttributeByte_of_mem {name : Text} (h : name ∈ classAttributes) :
    ∀ b ∈ Text.bytes name, isAttributeByte b = true := by
  revert name
  decide +kernel

theorem head_classAttributes {name : Text} (h : name ∈ classAttributes) :
    (Text.bytes name)[0]? = some 'c'.toUInt8 := by
  revert name
  decide

/-- A name that goes on after another one does not go on with a gap. -/
theorem class_eq_or_longer {name name' : Text} (h : name ∈ classAttributes)
    (h' : name' ∈ classAttributes) (hstarts : Text.bytes name <+: Text.bytes name') :
    name = name' ∨ ((Text.bytes name')[(Text.bytes name).length]?.any isGapByte = false ∧
      (Text.bytes name).length < (Text.bytes name').length) := by
  have hall : ∀ name ∈ classAttributes, ∀ name' ∈ classAttributes,
      Text.bytes name <+: Text.bytes name' → name = name' ∨
        ((Text.bytes name')[(Text.bytes name).length]?.any isGapByte = false ∧
          (Text.bytes name).length < (Text.bytes name').length) := by
    decide
  exact hall name h name' h' hstarts

/-! ## The search for attributes -/

section Search

variable {bs : List UInt8}

/-- An expected byte stands at the first mark. -/
theorem expect?_drop_iff {b : UInt8} {i : Nat} {ms : List Mark} :
    expect? b ((Mark.ofBytes bs).drop i) = some ms ↔
      bs[i]? = some b ∧ ms = (Mark.ofBytes bs).drop (i + 1) := by
  constructor
  · intro h
    by_cases hi : i < bs.length
    · rcases Mark.ofBytes_drop hi with ⟨m, hm, hdrop⟩
      rw [hdrop, expect?] at h
      split at h
      · rename_i hbyte
        cases h
        rw [Mark.byte_of_getElem? hm, beq_iff_eq.1 hbyte]
        exact ⟨rfl, rfl⟩
      · cases h
    · rw [Mark.ofBytes_drop_of_le (by omega)] at h
      cases h
  · rintro ⟨hb, rfl⟩
    rcases Mark.exists_mark hb with ⟨m, -, hbyte, hdrop⟩
    rw [hdrop, expect?, hbyte, if_pos (beq_self_eq_true b)]

/-- A byte that is no blank is expected behind blanks. -/
theorem expect?_dropBlanks_iff {b : UInt8} (hb : isMarkupBlank b = false) {i : Nat}
    {ms : List Mark} :
    expect? b (Mark.dropBlanks ((Mark.ofBytes bs).drop i)) = some ms ↔
      ∃ k, AreBlanks bs i k ∧ bs[k]? = some b ∧ ms = (Mark.ofBytes bs).drop (k + 1) := by
  constructor
  · intro h
    rcases Mark.dropBlanks_drop bs i with ⟨k, hblanks, hdrop⟩
    rw [hdrop, expect?_drop_iff] at h
    exact ⟨k, hblanks, h⟩
  · rintro ⟨k, hblanks, hbyte, rfl⟩
    rw [Mark.dropBlanks_eq_drop hblanks hbyte hb]
    exact expect?_drop_iff.2 ⟨hbyte, rfl⟩

/-- The value of an attribute starts behind an equals sign and a quotation mark. -/
theorem attributeValue?_iff {i : Nat} {ms : List Mark} :
    attributeValue? ((Mark.ofBytes bs).drop i) = some ms ↔
      ∃ sign opening, AreBlanks bs i sign ∧ bs[sign]? = some '='.toUInt8 ∧
        AreBlanks bs (sign + 1) opening ∧ bs[opening]? = some Quote.double.byte ∧
          ms = (Mark.ofBytes bs).drop (opening + 1) := by
  unfold attributeValue?
  rw [Option.bind_eq_some_iff]
  constructor
  · rintro ⟨value, hvalue, hms⟩
    rcases (expect?_dropBlanks_iff (by decide)).1 hvalue with ⟨sign, hblanks, hsign, rfl⟩
    rcases (expect?_dropBlanks_iff (by decide)).1 hms with ⟨opening, hblanks', hquote, rfl⟩
    exact ⟨sign, opening, hblanks, hsign, hblanks', hquote, rfl⟩
  · rintro ⟨sign, opening, hblanks, hsign, hblanks', hquote, rfl⟩
    refine ⟨_, (expect?_dropBlanks_iff (by decide)).2 ⟨sign, hblanks, hsign, rfl⟩, ?_⟩
    exact (expect?_dropBlanks_iff (by decide)).2 ⟨opening, hblanks', hquote, rfl⟩

/-- The first mark that holds a byte is the first index at which the byte stands. -/
theorem find?_byte_iff {b : UInt8} {i : Nat} {m : Mark} :
    ((Mark.ofBytes bs).drop i).find? (fun m => m.byte == b) = some m ↔
      ∃ k, i ≤ k ∧ (Mark.ofBytes bs)[k]? = some m ∧ bs[k]? = some b ∧
        ∀ j, i ≤ j → j < k → bs[j]? ≠ some b := by
  induction hn : bs.length - i generalizing i with
  | zero =>
    rw [Mark.ofBytes_drop_of_le (by omega), List.find?_nil]
    constructor
    · intro h
      cases h
    · rintro ⟨k, hk, hm, -⟩
      have := Mark.lt_length_of_getElem? hm
      omega
  | succ n ih =>
    have hb := List.getElem?_eq_getElem (show i < bs.length by omega)
    rcases Mark.exists_mark hb with ⟨first, hfirst, hbyte, hdrop⟩
    rw [hdrop, List.find?_cons, hbyte]
    by_cases hhere : bs[i] = b
    · -- the byte stands at the first mark
      rw [hhere, beq_self_eq_true]
      constructor
      · intro h
        cases h
        exact ⟨i, Nat.le_refl _, hfirst, by rw [hb, hhere], by omega⟩
      · rintro ⟨k, hk, hm, hkb, hbefore⟩
        obtain rfl : k = i := by
          by_contra hne
          exact hbefore i (Nat.le_refl _) (by omega) (by rw [hb, hhere])
        exact hfirst.symm.trans hm
    · rw [beq_eq_false_iff_ne.2 hhere]
      simp only
      rw [ih (by omega)]
      constructor
      · rintro ⟨k, hk, hm, hkb, hbefore⟩
        refine ⟨k, by omega, hm, hkb, ?_⟩
        intro j hj hlt
        rcases Nat.eq_or_lt_of_le hj with rfl | hj
        · rw [hb]
          simpa using hhere
        · exact hbefore j hj hlt
      · rintro ⟨k, hk, hm, hkb, hbefore⟩
        have hne : k ≠ i := by
          rintro rfl
          rw [hb] at hkb
          exact hhere (Option.some.inj hkb)
        exact ⟨k, by omega, hm, hkb, fun j hj hlt => hbefore j (by omega) hlt⟩

end Search

/-! ## Places of attributes -/

/-- A class attribute starts at `start`; its equals sign stands at `sign`, and the quotation marks
around its value at `opening` and `closing`. -/
structure IsClassAttribute (source : Source) (name : Text) (start sign opening closing : Nat) :
    Prop where
  /-- It is a class attribute. -/
  isClass : name ∈ classAttributes
  /-- The name stands at the start. -/
  named : Text.bytes name <+: (Text.bytes source.text).drop start
  /-- The name does not start in a comment. -/
  uncommented : source.comments.contains start = false
  /-- The name is not the end of a longer one. -/
  apart : ∀ b, 1 ≤ start → (Text.bytes source.text)[start - 1]? = some b →
    isAttributeByte b = false
  /-- The name is not the start of a longer one. -/
  ended : ∀ b, (Text.bytes source.text)[start + (Text.bytes name).length]? = some b →
    b = '='.toUInt8 ∨ isMarkupBlank b = true
  /-- Between the name and the equals sign there are blanks only. -/
  blanks : AreBlanks (Text.bytes source.text) (start + (Text.bytes name).length) sign
  /-- The equals sign stands behind them. -/
  equals : (Text.bytes source.text)[sign]? = some '='.toUInt8
  /-- Between the equals sign and the quotation mark there are blanks only. -/
  blanks' : AreBlanks (Text.bytes source.text) (sign + 1) opening
  /-- The quotation mark stands behind them. -/
  quote : (Text.bytes source.text)[opening]? = some Quote.double.byte
  /-- The value does not start in a comment. -/
  counted : source.comments.contains (opening + 1) = false
  /-- The value ends behind the quotation mark. -/
  ordered : opening < closing
  /-- There is no quotation mark in the value. -/
  unquoted : ∀ j, opening < j → j < closing →
    (Text.bytes source.text)[j]? ≠ some Quote.double.byte
  /-- The next quotation mark ends the value. -/
  quote' : (Text.bytes source.text)[closing]? = some Quote.double.byte

section Place

variable {t : Text} {name : Text} {start sign opening closing : Nat}

/-- The byte behind a name that blanks and an equals sign follow is one of them. -/
theorem eq_or_isMarkupBlank {bs : List UInt8} {i : Nat} (hblanks : AreBlanks bs i sign)
    (hequals : bs[sign]? = some '='.toUInt8) {b : UInt8} (hb : bs[i]? = some b) :
    b = '='.toUInt8 ∨ isMarkupBlank b = true := by
  rcases Nat.eq_or_lt_of_le hblanks.1 with rfl | hlt
  · rw [hb] at hequals
    exact Or.inl (Option.some.inj hequals)
  · rcases hblanks.2 i (Nat.le_refl _) hlt with ⟨b', hb', hblank⟩
    rw [hb] at hb'
    rw [Option.some.inj hb']
    exact Or.inr hblank

/-- The search finds the value at an index exactly where the class attribute stands. -/
theorem attributeOf?_eq_some_iff (hclass : name ∈ classAttributes) {c : Candidate} :
    (ofText t).attributeOf? name ((Mark.ofBytes (Text.bytes t)).drop start) = some c ↔
      ∃ sign opening closing, (ofText t).IsClassAttribute name start sign opening closing ∧
        c = ⟨(ofText t).slice ⟨opening + 1, closing⟩, opening + 1, .attribute, .double⟩ := by
  constructor
  · intro h
    by_cases hstart : start < (Text.bytes t).length
    · rcases Mark.ofBytes_drop hstart with ⟨m, hm, hdrop⟩
      rw [hdrop, attributeOf?, ← hdrop, List.drop_drop] at h
      split at h
      · rename_i hhere
        simp only [Bool.and_eq_true, Bool.not_eq_true', Mark.offset_of_getElem? hm] at hhere
        rcases hhere with ⟨⟨hname, hapart⟩, hout⟩
        rw [Mark.startsWith_iff, List.map_drop, Mark.map_byte_ofBytes] at hname
        rw [Mark.any_previous_eq_false_iff isAttributeByte hm] at hapart
        rcases Option.bind_eq_some_iff.1 h with ⟨value, hvalue, hc⟩
        rcases attributeValue?_iff.1 hvalue with
          ⟨sign, opening, hblanks, hsign, hblanks', hquote, rfl⟩
        split at hc
        · rename_i first last hfirst hlast
          rw [List.head?_drop] at hfirst
          rcases find?_byte_iff.1 hlast with ⟨closing, hle, hclosing, hquote', hunquoted⟩
          rw [Mark.offset_of_getElem? hfirst, Mark.offset_of_getElem? hclosing] at hc
          split at hc
          · cases hc
          · rename_i hcounted
            cases hc
            refine ⟨sign, opening, closing, ⟨hclass, hname, hout, hapart, ?_, hblanks, hsign,
              hblanks', hquote, by simpa using hcounted, hle, hunquoted, hquote'⟩, rfl⟩
            intro b hb
            exact eq_or_isMarkupBlank hblanks hsign hb
        · cases hc
      · cases h
    · rw [Mark.ofBytes_drop_of_le (by omega)] at h
      cases h
  · rintro ⟨sign, opening, closing, hat, rfl⟩
    have hhead : (Text.bytes t)[start]? = (Text.bytes name)[0]? :=
      getElem?_of_prefix_drop hat.named
        (List.getElem?_eq_some_iff.1 (head_classAttributes hclass)).1
    rw [head_classAttributes hclass] at hhead
    rcases Mark.exists_mark hhead with ⟨m, hm, -, hdrop⟩
    have hstarts : Mark.startsWith (Text.bytes name)
        ((Mark.ofBytes (Text.bytes t)).drop start) = true := by
      rw [Mark.startsWith_iff, List.map_drop, Mark.map_byte_ofBytes]
      exact hat.named
    have hapart := (Mark.any_previous_eq_false_iff isAttributeByte hm).2 hat.apart
    have huncommented : (ofText t).comments.contains m.offset = false := by
      rw [Mark.offset_of_getElem? hm]
      exact hat.uncommented
    rw [hdrop, attributeOf?, ← hdrop, List.drop_drop, hstarts, hapart, huncommented]
    -- all conditions on the name hold, and behind it stands the value
    simp only [Bool.not_false, Bool.and_self, if_true]
    have hvalue : attributeValue?
        ((Mark.ofBytes (Text.bytes t)).drop (start + (Text.bytes name).length)) =
          some ((Mark.ofBytes (Text.bytes t)).drop (opening + 1)) :=
      attributeValue?_iff.2 ⟨sign, opening, hat.blanks, hat.equals, hat.blanks', hat.quote, rfl⟩
    have hquote' : (Text.bytes t)[closing]? = some Quote.double.byte := hat.quote'
    rcases Mark.exists_mark hquote' with ⟨last, hlast, -, -⟩
    have hfind : ((Mark.ofBytes (Text.bytes t)).drop (opening + 1)).find?
        (fun m => m.byte == Quote.double.byte) = some last :=
      find?_byte_iff.2 ⟨closing, hat.ordered, hlast, hquote', hat.unquoted⟩
    have hlength := Mark.lt_length_of_getElem? hlast
    have hordered := hat.ordered
    have hfirst := List.getElem?_eq_getElem
      (show opening + 1 < (Text.bytes t).length by omega)
    rcases Mark.exists_mark hfirst with ⟨first, hfirst, -, -⟩
    have hcounted : (ofText t).comments.contains first.offset = false := by
      rw [Mark.offset_of_getElem? hfirst]
      exact hat.counted
    rw [hvalue, Option.bind_some, List.head?_drop, hfirst, hfind]
    simp only
    rw [hcounted, if_neg (by decide), Mark.offset_of_getElem? hfirst,
      Mark.offset_of_getElem? hlast]

/-- The value of a class attribute stands behind a gap and ends with the next quotation mark. -/
theorem IsClassAttribute.isAttributeAt
    (h : (ofText t).IsClassAttribute name start sign opening closing) :
    IsAttributeAt (Text.bytes t) name start ⟨opening + 1, closing⟩ := by
  have hblanks := h.blanks.1
  have hblanks' := h.blanks'.1
  refine ⟨h.isClass, h.named, h.apart, by simp only; omega, ?_, h.quote, h.ordered, ?_, h.quote'⟩
  · -- blanks, an equals sign, blanks again and a quotation mark
    have hblank : ∀ j : Nat, (∃ b, (Text.bytes t)[j]? = some b ∧ isMarkupBlank b = true) →
        ∃ b, (Text.bytes t)[j]? = some b ∧ isGapByte b = true := by
      rintro j ⟨b, hb, hblank⟩
      exact ⟨b, hb, by rw [isGapByte, hblank]; rfl⟩
    intro j hj hlt
    simp only at hlt
    by_cases hbefore : j < sign
    · exact hblank j (h.blanks.2 j hj hbefore)
    · by_cases hsign : j = sign
      · rw [hsign]
        exact ⟨_, h.equals, by decide⟩
      · by_cases hbetween : j < opening
        · exact hblank j (h.blanks'.2 j (by omega) hbetween)
        · rw [show j = opening by omega]
          exact ⟨_, h.quote, by decide⟩
  · intro j hj hlt
    exact h.unquoted j hj hlt

/-- The attribute found at an index stands there, and its value is the candidate. -/
theorem attributeOf?_spec (hclass : name ∈ classAttributes) {c : Candidate}
    (h : (ofText t).attributeOf? name ((Mark.ofBytes (Text.bytes t)).drop start) = some c) :
    ∃ body, IsAttributeAt (Text.bytes t) name start body ∧
      c = ⟨(ofText t).slice body, body.start, .attribute, .double⟩ := by
  rcases (attributeOf?_eq_some_iff hclass).1 h with ⟨sign, opening, closing, hat, rfl⟩
  exact ⟨_, hat.isAttributeAt, rfl⟩

end Place

end Source

/-! ## Attributes stand apart -/

namespace IsAttributeAt

variable {bs : List UInt8} {name name' : Text} {start start' : Nat} {body body' : Span}

theorem start_getElem? (h : IsAttributeAt bs name start body) :
    bs[start]? = some 'c'.toUInt8 := by
  have hhead := Source.head_classAttributes h.isClass
  rw [← hhead]
  exact getElem?_of_prefix_drop h.named (List.getElem?_eq_some_iff.1 hhead).1

/-- No attribute starts between the start of another one and its value. -/
theorem start_le (h : IsAttributeAt bs name start body) (h' : IsAttributeAt bs name' start' body')
    (hlt : start < start') : body.start ≤ start' := by
  by_contra hbefore
  by_cases hname : start' ≤ start + (Text.bytes name).length
  · -- the byte before the second name is part of the first one
    have hin : start' - 1 - start < (Text.bytes name).length := by omega
    have hget := getElem?_of_prefix_drop h.named hin
    rw [show start + (start' - 1 - start) = start' - 1 by omega,
      List.getElem?_eq_getElem hin] at hget
    have hbyte := Source.isAttributeByte_of_mem h.isClass _ (List.getElem_mem hin)
    rw [h'.apart _ (by omega) hget] at hbyte
    cases hbyte
  · -- the second name starts in the gap
    rcases h.gap start' (by omega) (by omega) with ⟨b, hb, hgap⟩
    rw [h'.start_getElem?] at hb
    cases hb
    exact absurd hgap (by decide)

/-- Of two attributes, the value of the one that starts first ends before the other value starts. -/
theorem stop_lt (h : IsAttributeAt bs name start body) (h' : IsAttributeAt bs name' start' body')
    (hlt : start < start') : body.stop < body'.start := by
  have hle := h.start_le h' hlt
  have hbehind := h'.behind
  by_contra hnot
  -- the quotation mark before the second value would be in the first one
  exact h.unquoted (body'.start - 1) (by omega) (by omega) h'.opening

theorem name_eq_of_isPrefix (h : IsAttributeAt bs name start body)
    (h' : IsAttributeAt bs name' start body') (hstarts : Text.bytes name <+: Text.bytes name') :
    name = name' := by
  rcases Source.class_eq_or_longer h.isClass h'.isClass hstarts with heq | ⟨hany, hlonger⟩
  · exact heq
  · -- the longer name would go on in the gap of the shorter one
    have hbehind := h.behind
    rcases h.gap _ (Nat.le_refl _) (by omega) with ⟨b, hb, hgap⟩
    rw [getElem?_of_prefix_drop h'.named hlonger] at hb
    rw [hb, Option.any_some, hgap] at hany
    cases hany

/-- At one place only one name can start. -/
theorem name_eq (h : IsAttributeAt bs name start body) (h' : IsAttributeAt bs name' start body') :
    name = name' := by
  -- of two prefixes of one list, the shorter one is a prefix of the other
  rcases Nat.le_total (Text.bytes name).length (Text.bytes name').length with hle | hle
  · exact h.name_eq_of_isPrefix h' (List.prefix_of_prefix_length_le h.named h'.named hle)
  · exact (h'.name_eq_of_isPrefix h (List.prefix_of_prefix_length_le h'.named h.named hle)).symm

end IsAttributeAt

namespace Source

variable {t : Text} {c : Candidate}

theorem attributesFrom_eq_foundFrom (source : Source) (ms : List Mark) :
    source.attributesFrom ms = foundFrom source.attributeOf? classAttributes ms := by
  induction ms with
  | nil => rfl
  | cons m rest ih => rw [attributesFrom, ih, foundFrom_cons]

theorem mem_attributesFrom {source : Source} {ms : List Mark} :
    c ∈ source.attributesFrom ms ↔
      ∃ i, ∃ name ∈ classAttributes, source.attributeOf? name (ms.drop i) = some c := by
  rw [attributesFrom_eq_foundFrom, mem_foundFrom]

/-- Each class attribute of a document stands in it. -/
theorem isAttributeAt_of_mem (h : c ∈ (ofText t).attributes) :
    ∃ name start body, IsAttributeAt (Text.bytes t) name start body ∧
      c = ⟨(ofText t).slice body, body.start, .attribute, .double⟩ := by
  rcases mem_attributesFrom.1 h with ⟨i, name, hclass, hname⟩
  rcases attributeOf?_spec hclass hname with ⟨body, hat, heq⟩
  exact ⟨name, i, body, hat, heq⟩

end Source

end ClassHighlight
