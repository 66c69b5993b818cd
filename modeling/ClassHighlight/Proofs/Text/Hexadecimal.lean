import Mathlib.Data.List.Forall2
import ClassHighlight.Color.Reading
import ClassHighlight.Proofs.Text.Place

/-!
# Letters and hexadecimal digits

In ASCII each small letter has its place 32 behind the capital. A hexadecimal digit may be written
with either, and each digit takes one byte, so texts of digits can be cut between any two of them.
-/

namespace ClassHighlight

/-- A list is read item by item. -/
theorem mapM_eq_some_iff {α β : Type} {f : α → Option β} {as : List α} {bs : List β} :
    as.mapM f = some bs ↔ List.Forall₂ (fun a b => f a = some b) as bs := by
  induction as generalizing bs with
  | nil => simp [eq_comm]
  | cons a as ih =>
    rw [List.mapM_cons, List.forall₂_cons_left_iff]
    constructor
    · intro h
      obtain ⟨b, hb, h⟩ := Option.bind_eq_some_iff.1 h
      obtain ⟨rest, hrest, h⟩ := Option.bind_eq_some_iff.1 h
      exact ⟨b, rest, hb, ih.1 hrest, (Option.some.inj h).symm⟩
    · rintro ⟨b, rest, hb, hrest, rfl⟩
      rw [hb, Option.bind_eq_bind, Option.bind_some, ih.2 hrest]
      rfl

namespace Text

/-! ## Letters -/

/-- A small letter has a capital, and every other character is its own. -/
theorem toUpper_cases (c : Char) :
    (c.toUpper = c ∧ ¬ (97 ≤ c.toNat ∧ c.toNat ≤ 122)) ∨
      (97 ≤ c.toNat ∧ c.toNat ≤ 122 ∧ c.toUpper.toNat + 32 = c.toNat) := by
  unfold Char.toUpper
  split
  · rename_i h
    have hlow : 97 ≤ c.toNat := h.1
    have hhigh : c.toNat ≤ 122 := h.2
    refine Or.inr ⟨hlow, hhigh, ?_⟩
    rw [Char.toNat_mk, UInt32.toNat_add]
    show (c.toNat + 4294967264) % 4294967296 + 32 = c.toNat
    omega
  · rename_i h
    exact Or.inl ⟨rfl, h⟩

/-- A capital has a small letter, and every other character is its own. -/
theorem toLower_cases (c : Char) :
    (c.toLower = c ∧ ¬ (65 ≤ c.toNat ∧ c.toNat ≤ 90)) ∨
      (65 ≤ c.toNat ∧ c.toNat ≤ 90 ∧ c.toLower.toNat = c.toNat + 32) := by
  unfold Char.toLower
  split
  · rename_i h
    have hlow : 65 ≤ c.toNat := h.1
    have hhigh : c.toNat ≤ 90 := h.2
    refine Or.inr ⟨hlow, hhigh, ?_⟩
    rw [Char.toNat_mk, UInt32.toNat_add]
    show (c.toNat + 32) % 4294967296 = c.toNat + 32
    omega
  · rename_i h
    exact Or.inl ⟨rfl, h⟩

/-- Two characters are equal up to the case of letters exactly if they are equal, or one of them is
the capital of the other. -/
theorem toLower_eq_iff {c d : Char} :
    c.toLower = d.toLower ↔ c = d ∨ c.toUpper = d ∨ c = d.toUpper := by
  simp only [← Char.toNat_inj]
  rcases toLower_cases c with ⟨hc, hc'⟩ | hc <;> rcases toLower_cases d with ⟨hd, hd'⟩ | hd <;>
    rcases toUpper_cases c with ⟨hcu, hcu'⟩ | hcu <;>
    rcases toUpper_cases d with ⟨hdu, hdu'⟩ | hdu <;> simp only [*] <;> omega

/-! ## Digits -/

/-- A character is the hexadecimal digit with a given value, written with capitals or with small
letters. -/
def IsHexDigit (c : Char) (n : Nat) : Prop :=
  "0123456789ABCDEF".toList[n]? = some c ∨ "0123456789abcdef".toList[n]? = some c

variable {c : Char} {n : Nat}

theorem IsHexDigit.lt (h : IsHexDigit c n) : n < 16 := by
  rcases h with h | h <;> exact (List.getElem?_eq_some_iff.1 h).1

/-- The digits and nothing else have values. -/
theorem hexValue?_eq_some_iff : hexValue? c = some n ↔ IsHexDigit c n := by
  constructor
  · intro h
    obtain ⟨hlt, hdigit, -⟩ := List.findIdx?_eq_some_iff_getElem.1 h
    have hn : n < 16 := hlt
    have hupper : hexDigits[n]? = some c.toUpper := by
      rw [List.getElem?_eq_getElem hlt, eq_of_beq hdigit]
    rcases toUpper_cases c with ⟨heq, -⟩ | ⟨hlow, -, hcode⟩
    · rw [heq] at hupper
      exact Or.inl hupper
    · right
      have hsmall : ∀ n < 16, (hexDigits[n]?.all fun d => d.toNat + 32 < 97 ||
          "0123456789abcdef".toList[n]? == some (Char.ofNat (d.toNat + 32))) = true := by decide
      have hdigit := hsmall n hn
      rw [hupper, Option.all_some, Bool.or_eq_true, decide_eq_true_eq, beq_iff_eq] at hdigit
      rcases hdigit with hdigit | hdigit
      · omega
      · rw [hdigit, hcode, Char.ofNat_toNat]
  · intro h
    have hlt := h.lt
    have hread : ∀ n < 16, "0123456789ABCDEF".toList[n]?.bind hexValue? = some n ∧
        "0123456789abcdef".toList[n]?.bind hexValue? = some n := by decide
    rcases h with h | h
    · have hvalue := (hread n hlt).1
      rwa [h] at hvalue
    · have hvalue := (hread n hlt).2
      rwa [h] at hvalue

/-- A digit has one value. -/
theorem IsHexDigit.unique {m : Nat} (h : IsHexDigit c n) (h' : IsHexDigit c m) : n = m := by
  rw [← hexValue?_eq_some_iff] at h h'
  exact Option.some.inj (h.symm.trans h')

theorem getElem?_hexDigits (h : n < 16) :
    "0123456789ABCDEF".toList[n]? = some (hexDigit n) := by
  have hlt : n < hexDigits.length := h
  rw [hexDigit, List.getD_eq_getElem?_getD, List.getElem?_eq_getElem hlt]
  exact List.getElem?_eq_getElem hlt

theorem isHexDigit_hexDigit (h : n < 16) : IsHexDigit (hexDigit n) n :=
  Or.inl (getElem?_hexDigits h)

theorem hexDigit_mem (h : n < 16) : hexDigit n ∈ "0123456789ABCDEF".toList :=
  List.mem_of_getElem? (getElem?_hexDigits h)

/-- A capital digit is the one that is written for its value. -/
theorem IsHexDigit.eq_hexDigit (h : IsHexDigit c n) (hc : c ∈ "0123456789ABCDEF".toList) :
    c = hexDigit n := by
  obtain ⟨m, hm⟩ := List.mem_iff_getElem?.1 hc
  obtain rfl := h.unique (Or.inl hm)
  exact Option.some.inj (hm.symm.trans (getElem?_hexDigits h.lt))

/-- A byte of a digit is an ASCII byte. -/
theorem lt_of_isHexByte {b : UInt8} (h : isHexByte b = true) : b < 0x80 := by
  simp only [isHexByte, Bool.or_eq_true, Bool.and_eq_true, decide_eq_true_eq, UInt8.le_iff_toNat_le]
    at h
  rw [UInt8.lt_iff_toNat_lt]
  have hcodes : (0x39 : UInt8).toNat = 57 ∧ (0x46 : UInt8).toNat = 70 ∧ (0x66 : UInt8).toNat = 102 ∧
    (0x80 : UInt8).toNat = 128 := by decide
  omega

theorem IsHexDigit.mem (h : IsHexDigit c n) : c ∈ "0123456789ABCDEFabcdef".toList := by
  rcases h with h | h
  · have hupper : "0123456789ABCDEF".toList ⊆ "0123456789ABCDEFabcdef".toList :=
      List.subset_append_left _ "abcdef".toList
    exact hupper (List.mem_of_getElem? h)
  · have hlower : "0123456789abcdef".toList ⊆ "0123456789ABCDEFabcdef".toList := by decide
    exact hlower (List.mem_of_getElem? h)

/-- Digits take one byte. -/
theorem IsHexDigit.utf8Size (h : IsHexDigit c n) : c.utf8Size = 1 := by
  have hsize : ("0123456789ABCDEFabcdef".toList.all fun d => d.utf8Size == 1) = true := by decide
  exact eq_of_beq (List.all_eq_true.1 hsize c h.mem)

/-- The digits are the characters all of whose bytes are digits. -/
theorem exists_isHexDigit_iff :
    (∃ n, IsHexDigit c n) ↔ ∀ b ∈ String.utf8EncodeChar c, isHexByte b = true := by
  constructor
  · rintro ⟨n, h⟩
    have hbytes : ("0123456789ABCDEFabcdef".toList.all fun d =>
        (String.utf8EncodeChar d).all isHexByte) = true := by decide
    exact List.all_eq_true.1 (List.all_eq_true.1 hbytes c h.mem)
  · intro h
    have hdigits : ∀ k < 128, isHexByte (Char.ofNat k).toUInt8 = true →
        ∃ n < 16, "0123456789ABCDEF".toList[n]? = some (Char.ofNat k) ∨
          "0123456789abcdef".toList[n]? = some (Char.ofNat k) := by decide
    -- an ASCII byte is all of its character
    have hone : c.utf8Size = 1 := by
      have hpos : 0 < (String.utf8EncodeChar c).length :=
        String.length_utf8EncodeChar c ▸ c.utf8Size_pos
      obtain ⟨b, hb⟩ := List.exists_mem_of_length_pos hpos
      exact utf8Size_of_ascii hb (lt_of_isHexByte (h b hb))
    have hcode : c.toNat ≤ 127 := Char.utf8Size_eq_one_iff.1 hone
    rw [String.utf8EncodeChar_eq_singleton hone, List.forall_mem_singleton] at h
    obtain ⟨n, -, hn⟩ := hdigits c.toNat (by omega) (by rwa [Char.ofNat_toNat])
    rw [Char.ofNat_toNat] at hn
    exact ⟨n, hn⟩

/-! ## Texts of digits -/

/-- The characters of a text are hexadecimal digits with the given values. -/
def AreHexDigits (t : Text) (values : List Nat) : Prop :=
  List.Forall₂ IsHexDigit t values

variable {t : Text} {values : List Nat}

theorem mapM_hexValue?_eq_some_iff :
    t.mapM hexValue? = some values ↔ AreHexDigits t values := by
  rw [mapM_eq_some_iff]
  simp only [hexValue?_eq_some_iff]
  exact Iff.rfl

theorem AreHexDigits.lt (h : AreHexDigits t values) : ∀ n ∈ values, n < 16 := by
  induction h with
  | nil => exact fun n hn => absurd hn List.not_mem_nil
  | cons hdigit _ ih => exact List.forall_mem_cons.2 ⟨hdigit.lt, ih⟩

/-- The digits of a text have one list of values. -/
theorem AreHexDigits.unique {values' : List Nat} (h : AreHexDigits t values)
    (h' : AreHexDigits t values') : values = values' := by
  rw [← mapM_hexValue?_eq_some_iff] at h h'
  exact Option.some.inj (h.symm.trans h')

theorem exists_areHexDigits_iff :
    (∃ values, AreHexDigits t values) ↔ ∀ c ∈ t, ∃ n, IsHexDigit c n := by
  induction t with
  | nil => simp [AreHexDigits]
  | cons c rest ih =>
    rw [List.forall_mem_cons, ← ih]
    constructor
    · rintro ⟨values, h⟩
      cases h with
      | cons hn hrest => exact ⟨⟨_, hn⟩, _, hrest⟩
    · rintro ⟨⟨n, hn⟩, values, hrest⟩
      exact ⟨n :: values, .cons hn hrest⟩

/-- The digits of a text are checked byte by byte. -/
theorem all_isHexByte_iff :
    (bytes t).all isHexByte = true ↔ ∃ values, AreHexDigits t values := by
  simp only [exists_areHexDigits_iff, exists_isHexDigit_iff, bytes, List.all_flatMap,
    List.all_eq_true]

theorem AreHexDigits.utf8Size (h : AreHexDigits t values) : ∀ c ∈ t, c.utf8Size = 1 := by
  intro c hc
  obtain ⟨n, hn⟩ := exists_areHexDigits_iff.1 ⟨values, h⟩ c hc
  exact hn.utf8Size

/-- A text of characters of one byte has as many bytes as characters. -/
theorem byteLength_eq_length (h : ∀ c ∈ t, c.utf8Size = 1) : byteLength t = t.length := by
  induction t with
  | nil => rfl
  | cons c rest ih =>
    obtain ⟨hc, hrest⟩ := List.forall_mem_cons.1 h
    rw [byteLength_cons, hc, ih hrest, List.length_cons, Nat.add_comm]

/-- Where every character takes one byte, a text is cut by counting characters. -/
theorem slice?_eq_of_utf8Size (h : ∀ c ∈ t, c.utf8Size = 1) {start n : Nat}
    (hle : start + n ≤ t.length) :
    t.slice? start (start + n) = some ((t.drop start).take n) := by
  have hfront : byteLength (t.take start) = start := by
    rw [byteLength_eq_length fun c hc => h c (List.mem_of_mem_take hc), List.length_take]
    omega
  have hpart : byteLength ((t.drop start).take n) = n := by
    rw [byteLength_eq_length fun c hc => h c (List.mem_of_mem_drop (List.mem_of_mem_take hc)),
      List.length_take, List.length_drop]
    omega
  have hat : t.HasAt start ((t.drop start).take n) := by
    refine ⟨t.take start, (t.drop start).drop n, ?_, hfront⟩
    rw [List.append_assoc, List.take_append_drop, List.take_append_drop]
  have hslice := hat.slice?
  rwa [hpart] at hslice

/-- Digits alone are read as their number, if it is within the bound. -/
theorem readHexNumber?_of_areHexDigits (h : AreHexDigits t values) (hne : t ≠ []) {bound : Nat}
    (hle : ofDigitValues 16 values ≤ bound) :
    readHexNumber? bound t = some (ofDigitValues 16 values) := by
  have hdigits : readHexDigits? bound t = some (ofDigitValues 16 values) := by
    have hvalues : values ≠ [] := by
      rintro rfl
      exact hne (List.forall₂_nil_right_iff.1 h)
    rw [readHexDigits?, mapM_hexValue?_eq_some_iff.2 h, Option.bind_some]
    exact if_pos ⟨hvalues, hle⟩
  unfold readHexNumber?
  split
  · -- a plus sign is no digit
    cases h with
    | cons hplus _ =>
      rw [← hexValue?_eq_some_iff] at hplus
      revert hplus
      have hnone : hexValue? '+' = none := by decide
      simp [hnone]
  · exact hdigits

end Text

end ClassHighlight
