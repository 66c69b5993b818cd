import Mathlib.Data.List.Induction
import ClassHighlight.Nat64
import ClassHighlight.Text.Blank

/-!
# Numerals

Decimal digits stand for a number: one digit for its value, and a digit behind others for its value
and ten times their number. The texts that stand for a number are its decimal digits with any number
of zeros in front, and a plus sign may stand in front of these. Reading them within 64 bits, digit
after digit, fails exactly for the numbers that do not fit: a number never gets smaller with one more
digit, so what is too large on the way is too large in the end.
-/

namespace ClassHighlight

namespace Text

/-! ## Digits -/

/-- A character is the decimal digit with a given value. -/
def IsDigit (c : Char) (d : Nat) : Prop := "0123456789".toList[d]? = some c

/-- Decimal digits stand for a number. -/
inductive AreDigits : Text → Nat → Prop
  /-- A digit alone stands for its value. -/
  | single {c : Char} {d : Nat} (hd : IsDigit c d) : AreDigits [c] d
  /-- A digit behind others adds its value to ten times their number. -/
  | concat {t : Text} {n : Nat} {c : Char} {d : Nat} (h : AreDigits t n) (hd : IsDigit c d) :
      AreDigits (t ++ [c]) (10 * n + d)

/-- A text is a numeral of a number: decimal digits, after at most one plus sign. -/
inductive IsNumeral : Text → Nat → Prop
  /-- There is no sign. -/
  | plain {t : Text} {n : Nat} (h : AreDigits t n) : IsNumeral t n
  /-- There is a plus sign. -/
  | signed {t : Text} {n : Nat} (h : AreDigits t n) : IsNumeral ('+' :: t) n

variable {c : Char} {d n bound : Nat} {t : Text}

theorem isDigit_digitChar (h : d < 10) : IsDigit d.digitChar d := by
  have hall : ∀ d < 10, "0123456789".toList[d]? = some d.digitChar := by decide
  exact hall d h

theorem IsDigit.lt (h : IsDigit c d) : d < 10 :=
  (List.getElem?_eq_some_iff.1 h).1

theorem IsDigit.eq_digitChar (h : IsDigit c d) : c = d.digitChar :=
  Option.some.inj (h.symm.trans (isDigit_digitChar h.lt))

/-- The digits are ten characters in a row. -/
theorem isDigit_iff : IsDigit c d ↔ c.isDigit = true ∧ c.toNat - '0'.toNat = d := by
  constructor
  · intro h
    have hlt := h.lt
    rw [h.eq_digitChar, Nat.isDigit_digitChar, Nat.toNat_digitChar_of_lt_ten hlt]
    exact ⟨decide_eq_true hlt, Nat.add_sub_cancel_left _ d⟩
  · rintro ⟨hdigit, rfl⟩
    obtain ⟨hlow, hhigh⟩ := Char.isDigit_iff_toNat.1 hdigit
    have hzero : '0'.toNat = 48 := rfl
    have hnine : '9'.toNat = 57 := rfl
    have hlt : c.toNat - '0'.toNat < 10 := by omega
    have hcode : c = (c.toNat - '0'.toNat).digitChar := by
      rw [← Char.toNat_inj, Nat.toNat_digitChar_of_lt_ten hlt]
      omega
    have hchar := isDigit_digitChar hlt
    rwa [← hcode] at hchar

/-- Digits are read from the left, and the number of those read so far grows tenfold. -/
theorem areDigits_iff :
    AreDigits t n ↔ t ≠ [] ∧ t.all Char.isDigit = true ∧ Nat.ofDigitChars 10 t 0 = n := by
  constructor
  · intro h
    induction h with
    | single hd =>
      obtain ⟨hdigit, rfl⟩ := isDigit_iff.1 hd
      simp [hdigit, Nat.ofDigitChars_cons]
    | concat h hd ih =>
      obtain ⟨-, hall, rfl⟩ := ih
      obtain ⟨hdigit, rfl⟩ := isDigit_iff.1 hd
      simp [hall, hdigit, Nat.ofDigitChars_append, Nat.ofDigitChars_cons]
  · rintro ⟨hne, hall, rfl⟩
    induction t using List.reverseRecOn with
    | nil => exact absurd rfl hne
    | append_singleton t c ih =>
      rw [List.all_append, Bool.and_eq_true, List.all_cons, List.all_nil, Bool.and_true] at hall
      have hd := isDigit_iff.2 ⟨hall.2, rfl⟩
      rw [Nat.ofDigitChars_append, Nat.ofDigitChars_cons, Nat.ofDigitChars_nil]
      cases t with
      | nil => exact .single (by simpa using hd)
      | cons first rest => exact .concat (ih (List.cons_ne_nil _ _) hall.1) hd

theorem AreDigits.isDigit (h : AreDigits t n) : ∀ c ∈ t, c.isDigit = true :=
  List.all_eq_true.1 (areDigits_iff.1 h).2.1

/-! ## Zeros in front -/

theorem areDigits_decimal (n : Nat) : AreDigits (decimal n) n := by
  rw [areDigits_iff]
  refine ⟨Nat.toDigits_ne_nil, List.all_eq_true.2 fun c hc => ?_, Nat.ofDigitChars_ten_toDigits⟩
  exact Nat.isDigit_of_mem_toDigits (by decide) (by decide) hc

/-- The digits of a number are its decimal digits with zeros in front. -/
theorem areDigits_iff_zeros : AreDigits t n ↔ ∃ k, t = List.replicate k '0' ++ decimal n := by
  constructor
  · intro h
    induction h with
    | single hd =>
      refine ⟨0, ?_⟩
      rw [hd.eq_digitChar, decimal, Nat.toDigits_of_lt_base hd.lt]
      rfl
    | @concat _ n c d h hd ih =>
      obtain ⟨k, rfl⟩ := ih
      have hlast : [c] = decimal d := by
        rw [hd.eq_digitChar, decimal, Nat.toDigits_of_lt_base hd.lt]
      rw [hlast, List.append_assoc]
      cases Nat.eq_zero_or_pos n with
      | inl hzero =>
        -- the digit of zero is one more zero in front
        subst hzero
        refine ⟨k + 1, ?_⟩
        rw [List.replicate_succ', List.append_assoc, Nat.mul_zero, Nat.zero_add]
        rfl
      | inr hpos =>
        exact ⟨k, by rw [decimal, decimal, Nat.toDigits_append_toDigits (by decide) hpos hd.lt]; rfl⟩
  · rintro ⟨k, rfl⟩
    obtain ⟨hne, hall, hnumber⟩ := areDigits_iff.1 (areDigits_decimal n)
    rw [areDigits_iff, Nat.ofDigitChars_append, Nat.ofDigitChars_replicate_zero, Nat.mul_zero]
    refine ⟨fun hnil => hne (List.append_eq_nil_iff.1 hnil).2, ?_, hnumber⟩
    rw [List.all_append, hall, Bool.and_true]
    exact List.all_eq_true.2 fun c hc => by rw [List.eq_of_mem_replicate hc]; rfl

/-! ## Numerals -/

theorem isNumeral_decimal (n : Nat) : IsNumeral (decimal n) n :=
  .plain (areDigits_decimal n)

/-- Behind a plus sign there are digits only. -/
theorem isNumeral_signed_iff : IsNumeral ('+' :: t) n ↔ AreDigits t n := by
  constructor
  · rintro (h | h)
    · exact absurd (h.isDigit '+' List.mem_cons_self) (by decide)
    · exact h
  · exact .signed

theorem isNumeral_plain_iff (h : ∀ digits, t ≠ '+' :: digits) : IsNumeral t n ↔ AreDigits t n := by
  constructor
  · rintro (hdigits | hdigits)
    · exact hdigits
    · exact absurd rfl (h _)
  · exact .plain

/-- A numeral is the decimal digits with zeros in front, and maybe a plus sign. -/
theorem isNumeral_iff : IsNumeral t n ↔ ∃ k, t = List.replicate k '0' ++ decimal n ∨
    t = '+' :: (List.replicate k '0' ++ decimal n) := by
  constructor
  · rintro (h | h)
    · obtain ⟨k, hk⟩ := areDigits_iff_zeros.1 h
      exact ⟨k, Or.inl hk⟩
    · obtain ⟨k, rfl⟩ := areDigits_iff_zeros.1 h
      exact ⟨k, Or.inr rfl⟩
  · rintro ⟨k, rfl | rfl⟩
    · exact .plain (areDigits_iff_zeros.2 ⟨k, rfl⟩)
    · exact .signed (areDigits_iff_zeros.2 ⟨k, rfl⟩)

/-- A numeral holds neither a blank nor a colon. -/
theorem IsNumeral.not_blank_nor_colon (h : IsNumeral t n) : ∀ c ∈ t, isBlank c = false ∧ c ≠ ':' := by
  have hdigits : ∀ {t n}, AreDigits t n → ∀ c ∈ t, isBlank c = false ∧ c ≠ ':' := by
    intro t n h c hc
    have hplain : ∀ d < 10, isBlank d.digitChar = false ∧ d.digitChar ≠ ':' := by decide
    have hd := isDigit_iff.2 ⟨h.isDigit c hc, rfl⟩
    rw [hd.eq_digitChar]
    exact hplain _ hd.lt
  cases h with
  | plain h => exact hdigits h
  | signed h => exact List.forall_mem_cons.2 ⟨by decide, hdigits h⟩

/-! ## Reading -/

theorem readDigits?_eq_some_iff : readDigits? bound t = some n ↔ AreDigits t n ∧ n ≤ bound := by
  rw [areDigits_iff, readDigits?]
  split <;> grind

/-- The numerals of the numbers that fit are read, and nothing else is. -/
theorem readNat64?_eq_some_iff : readNat64? t = some n ↔ IsNumeral t n ∧ n ≤ maxNat64 := by
  unfold readNat64?
  split
  · rw [isNumeral_signed_iff, readDigits?_eq_some_iff]
  · rename_i h
    rw [isNumeral_plain_iff h, readDigits?_eq_some_iff]

end Text

namespace Nat64

variable {c : Char} {m n : Nat} {t : Text}

theorem push?_eq_some_iff : push? m c = some n ↔
    c.isDigit = true ∧ 10 * m + (c.toNat - '0'.toNat) = n ∧ n ≤ maxNat64 := by
  unfold push?
  rw [Option.bind_eq_bind, Option.bind_eq_some_iff]
  constructor
  · rintro ⟨shifted, hshifted, h⟩
    obtain ⟨rfl, -⟩ := fit?_eq_some_iff.1 hshifted
    split at h
    · rename_i hdigit
      obtain ⟨rfl, hle⟩ := add?_eq_some_iff.1 h
      exact ⟨hdigit, by omega, hle⟩
    · cases h
  · rintro ⟨hdigit, rfl, hle⟩
    refine ⟨m * 10, fit?_eq_some_iff.2 ⟨rfl, by omega⟩, ?_⟩
    rw [if_pos hdigit]
    exact add?_eq_some_iff.2 ⟨by omega, hle⟩

/-- The number of some digits is not smaller than the one in front of them. -/
theorem le_ofDigitChars (digits : Text) (m : Nat) : m ≤ Nat.ofDigitChars 10 digits m := by
  induction digits generalizing m with
  | nil => exact Nat.le_refl m
  | cons c rest ih =>
    have hrest := ih (10 * m + (c.toNat - '0'.toNat))
    rw [Nat.ofDigitChars_cons]
    omega

/-- Digits are read one after the other as long as the number fits, and it fits to the end if it
fits in the end. -/
theorem foldlM_push?_eq_some_iff (hm : m ≤ maxNat64) : t.foldlM push? m = some n ↔
    t.all Char.isDigit = true ∧ Nat.ofDigitChars 10 t m = n ∧ n ≤ maxNat64 := by
  induction t generalizing m with
  | nil =>
    simp only [List.foldlM_nil, List.all_nil, Nat.ofDigitChars_nil, true_and]
    constructor
    · intro h
      cases h
      exact ⟨rfl, hm⟩
    · rintro ⟨rfl, -⟩
      rfl
  | cons c rest ih =>
    rw [List.foldlM_cons, Option.bind_eq_bind, Option.bind_eq_some_iff, List.all_cons,
      Bool.and_eq_true, Nat.ofDigitChars_cons]
    constructor
    · rintro ⟨next, hnext, hrest⟩
      obtain ⟨hdigit, rfl, hle⟩ := push?_eq_some_iff.1 hnext
      obtain ⟨hall, hnumber⟩ := (ih hle).1 hrest
      exact ⟨⟨hdigit, hall⟩, hnumber⟩
    · rintro ⟨⟨hdigit, hall⟩, hnumber, hle⟩
      have hnext := le_ofDigitChars rest (10 * m + (c.toNat - '0'.toNat))
      rw [hnumber] at hnext
      have hfits := Nat.le_trans hnext hle
      exact ⟨_, push?_eq_some_iff.2 ⟨hdigit, rfl, hfits⟩, (ih hfits).2 ⟨hall, hnumber, hle⟩⟩

theorem foldlM_push?_iff (h : t ≠ []) :
    t.foldlM push? 0 = some n ↔ Text.AreDigits t n ∧ n ≤ maxNat64 := by
  rw [foldlM_push?_eq_some_iff (Nat.zero_le _), Text.areDigits_iff]
  simp [h, and_assoc]

/-- Reading digit after digit gives the numbers of the numerals that fit. -/
theorem read?_eq_some_iff : read? t = some n ↔ Text.IsNumeral t n ∧ n ≤ maxNat64 := by
  have hnil : ¬ Text.AreDigits [] n := fun h => (Text.areDigits_iff.1 h).1 rfl
  unfold read?
  split
  · rw [Text.isNumeral_plain_iff (by simp)]
    simp [hnil]
  · rw [Text.isNumeral_signed_iff]
    simp [hnil]
  · rename_i digits hne
    rw [Text.isNumeral_signed_iff, foldlM_push?_iff hne]
  · rename_i hne hsign hplus
    rw [Text.isNumeral_plain_iff hplus, foldlM_push?_iff hne]

/-- Whether the sums and products on the way fit makes no difference to what is read. -/
theorem read?_eq (t : Text) : read? t = Text.readNat64? t := by
  apply Option.ext
  intro n
  rw [read?_eq_some_iff, Text.readNat64?_eq_some_iff]

end Nat64

end ClassHighlight
