import ClassHighlight.Proofs.Text.Hexadecimal
import ClassHighlight.Proofs.Text.Trim

/-!
# Written colors

A text is a color if, between the blanks at its two ends, it is a number sign with three, six or
eight hexadecimal digits behind it. Such digits are texts of one byte each, so they can be cut
wherever the form asks for it, and a text with anything else among them is refused before it is cut.
Of the texts that stand for a color one is canonical: the one in upper case, in the long form, with
digits for the alpha value only if the color is not solid. This is the one that is written.
-/

namespace ClassHighlight

namespace Color

/-! ## Written forms -/

/-- Two hexadecimal digits stand for a byte. -/
def IsByte (high low : Char) (b : UInt8) : Prop :=
  ∃ m n, Text.IsHexDigit high m ∧ Text.IsHexDigit low n ∧ b.toNat = 16 * m + n

/-- Hexadecimal digits stand for bytes, two for each. -/
inductive AreBytes : Text → List UInt8 → Prop
  /-- No digits stand for no bytes. -/
  | nil : AreBytes [] []
  /-- Two digits stand for a byte in front of the others. -/
  | cons {high low : Char} {b : UInt8} {digits : Text} {bytes : List UInt8}
      (hb : IsByte high low b) (h : AreBytes digits bytes) :
      AreBytes (high :: low :: digits) (b :: bytes)

/-- A text is a written form of a color. -/
inductive IsWritten : Text → Color → Prop
  /-- In the short form each digit stands for two of its kind. -/
  | short {r g b : Char} {x y z : UInt8} (h : AreBytes [r, r, g, g, b, b] [x, y, z]) :
      IsWritten ['#', r, g, b] ⟨x, y, z, 0xFF⟩
  /-- In the long form each channel has two digits. -/
  | long {digits : Text} {x y z : UInt8} (h : AreBytes digits [x, y, z]) :
      IsWritten ('#' :: digits) ⟨x, y, z, 0xFF⟩
  /-- The alpha value may have two digits as well. -/
  | full {digits : Text} {x y z w : UInt8} (h : AreBytes digits [x, y, z, w]) :
      IsWritten ('#' :: digits) ⟨x, y, z, w⟩

/-- A number sign and three, six or eight hexadecimal digits. -/
def HasForm (w : Text) : Prop :=
  ∃ digits, w = '#' :: digits ∧ (digits.length = 3 ∨ digits.length = 6 ∨ digits.length = 8) ∧
    ∀ d ∈ digits, ∃ n, Text.IsHexDigit d n

/-! ## Reading the digits -/

section Byte

variable {high low : Char} {m n : Nat} {b : UInt8}

theorem toNat_byteOfDigits (hm : m < 16) (hn : n < 16) :
    (byteOfDigits m n).toNat = 16 * m + n := by
  show (16 * m + n) % 256 = _
  omega

theorem isByte_byteOfDigits (hhigh : Text.IsHexDigit high m) (hlow : Text.IsHexDigit low n) :
    IsByte high low (byteOfDigits m n) :=
  ⟨m, n, hhigh, hlow, toNat_byteOfDigits hhigh.lt hlow.lt⟩

/-- A byte is that of its two digits. -/
theorem IsByte.exists_eq (h : IsByte high low b) :
    ∃ m n, Text.IsHexDigit high m ∧ Text.IsHexDigit low n ∧ b = byteOfDigits m n := by
  obtain ⟨m, n, hhigh, hlow, hb⟩ := h
  refine ⟨m, n, hhigh, hlow, ?_⟩
  rw [← UInt8.toNat_inj, toNat_byteOfDigits hhigh.lt hlow.lt, hb]

end Byte

/-- The bytes with given digits, two for each. -/
def bytesOf? : List Nat → Option (List UInt8)
  | [] => some []
  | [_] => none
  | m :: n :: rest => (bytesOf? rest).map fun bytes => byteOfDigits m n :: bytes

/-- Digits stand for the bytes that their values make two by two. -/
theorem areBytes_iff {digits : Text} {bytes : List UInt8} :
    AreBytes digits bytes ↔
      ∃ values, Text.AreHexDigits digits values ∧ bytesOf? values = some bytes := by
  constructor
  · intro h
    induction h with
    | nil => exact ⟨[], .nil, rfl⟩
    | cons hb _ ih =>
      obtain ⟨values, hvalues, hbytes⟩ := ih
      obtain ⟨m, n, hhigh, hlow, rfl⟩ := hb.exists_eq
      exact ⟨m :: n :: values, .cons hhigh (.cons hlow hvalues), by rw [bytesOf?, hbytes]; rfl⟩
  · rintro ⟨values, hvalues, hbytes⟩
    fun_induction bytesOf? values generalizing digits bytes with
    | case1 =>
      cases hvalues
      cases hbytes
      exact .nil
    | case2 => cases hbytes
    | case3 m n rest ih =>
      obtain ⟨_, hrest, rfl⟩ := Option.map_eq_some_iff.1 hbytes
      obtain - | ⟨hhigh, - | ⟨hlow, hvalues⟩⟩ := id hvalues
      exact .cons (isByte_byteOfDigits hhigh hlow) (ih hvalues hrest)

/-- What digits stand for is made of their values. -/
theorem AreBytes.bytesOf?_eq {digits : Text} {bytes : List UInt8} {values : List Nat}
    (h : AreBytes digits bytes) (hvalues : Text.AreHexDigits digits values) :
    bytesOf? values = some bytes := by
  obtain ⟨values', hvalues', hbytes⟩ := areBytes_iff.1 h
  rwa [hvalues.unique hvalues']

section Values

variable {values : List Nat}

theorem exists_of_bytesOf?_eq_cons {b : UInt8} {bytes : List UInt8}
    (h : bytesOf? values = some (b :: bytes)) :
    ∃ m n rest, values = m :: n :: rest ∧ byteOfDigits m n = b ∧ bytesOf? rest = some bytes := by
  unfold bytesOf? at h
  split at h
  · cases h
  · cases h
  · obtain ⟨_, hrest, heq⟩ := Option.map_eq_some_iff.1 h
    cases heq
    exact ⟨_, _, _, rfl, rfl, hrest⟩

theorem eq_nil_of_bytesOf?_eq_nil (h : bytesOf? values = some []) : values = [] := by
  unfold bytesOf? at h
  split at h
  · rfl
  · cases h
  · obtain ⟨_, _, heq⟩ := Option.map_eq_some_iff.1 h
    cases heq

/-- Three bytes are the channels of a solid color. -/
theorem ofDigits?_of_solid {x y z : UInt8} (h : bytesOf? values = some [x, y, z]) :
    ofDigits? values = some ⟨x, y, z, 0xFF⟩ := by
  obtain ⟨_, _, _, rfl, rfl, hgreen⟩ := exists_of_bytesOf?_eq_cons h
  obtain ⟨_, _, _, rfl, rfl, hblue⟩ := exists_of_bytesOf?_eq_cons hgreen
  obtain ⟨_, _, _, rfl, rfl, hend⟩ := exists_of_bytesOf?_eq_cons hblue
  rw [eq_nil_of_bytesOf?_eq_nil hend]
  rfl

/-- Four bytes are the channels and the alpha value of a color. -/
theorem ofDigits?_of_full {x y z w : UInt8} (h : bytesOf? values = some [x, y, z, w]) :
    ofDigits? values = some ⟨x, y, z, w⟩ := by
  obtain ⟨_, _, _, rfl, rfl, hgreen⟩ := exists_of_bytesOf?_eq_cons h
  obtain ⟨_, _, _, rfl, rfl, hblue⟩ := exists_of_bytesOf?_eq_cons hgreen
  obtain ⟨_, _, _, rfl, rfl, halpha⟩ := exists_of_bytesOf?_eq_cons hblue
  obtain ⟨_, _, _, rfl, rfl, hend⟩ := exists_of_bytesOf?_eq_cons halpha
  rw [eq_nil_of_bytesOf?_eq_nil hend]
  rfl

theorem ofDigits?_eq_none_iff :
    ofDigits? values = none ↔
      ¬ (values.length = 3 ∨ values.length = 6 ∨ values.length = 8) := by
  rcases values with
    _ | ⟨_, _ | ⟨_, _ | ⟨_, _ | ⟨_, _ | ⟨_, _ | ⟨_, _ | ⟨_, _ | ⟨_, _ | ⟨_, _⟩⟩⟩⟩⟩⟩⟩⟩⟩ <;>
    simp [ofDigits?]

end Values

/-- The digits of the three forms, and no others, stand for a color. -/
theorem ofDigits?_eq_some_iff {digits : Text} {values : List Nat}
    (hvalues : Text.AreHexDigits digits values) {c : Color} :
    ofDigits? values = some c ↔ IsWritten ('#' :: digits) c := by
  constructor
  · intro h
    unfold ofDigits? at h
    split at h
    · obtain rfl := Option.some.inj h
      obtain - | ⟨hr, - | ⟨hg, - | ⟨hb, ⟨⟩⟩⟩⟩ := id hvalues
      exact .short (.cons (isByte_byteOfDigits hr hr) (.cons (isByte_byteOfDigits hg hg)
        (.cons (isByte_byteOfDigits hb hb) .nil)))
    · obtain rfl := Option.some.inj h
      exact .long (areBytes_iff.2 ⟨_, hvalues, rfl⟩)
    · obtain rfl := Option.some.inj h
      exact .full (areBytes_iff.2 ⟨_, hvalues, rfl⟩)
    · cases h
  · intro h
    cases h with
    | short h =>
      obtain - | ⟨hr, - | ⟨hg, - | ⟨hb, ⟨⟩⟩⟩⟩ := id hvalues
      have hbytes := h.bytesOf?_eq
        (.cons hr (.cons hr (.cons hg (.cons hg (.cons hb (.cons hb .nil))))))
      cases hbytes
      rfl
    | long h => exact ofDigits?_of_solid (h.bytesOf?_eq hvalues)
    | full h => exact ofDigits?_of_full (h.bytesOf?_eq hvalues)

/-- The digits behind the number sign of a written color are hexadecimal. -/
theorem IsWritten.exists_areHexDigits {w : Text} {c : Color} (h : IsWritten w c) :
    ∃ digits values, w = '#' :: digits ∧ Text.AreHexDigits digits values := by
  cases h with
  | short h =>
    obtain ⟨values, hvalues, -⟩ := areBytes_iff.1 h
    obtain - | ⟨hr, - | ⟨-, - | ⟨hg, - | ⟨-, - | ⟨hb, -⟩⟩⟩⟩⟩ := id hvalues
    exact ⟨_, _, rfl, .cons hr (.cons hg (.cons hb .nil))⟩
  | long h =>
    obtain ⟨values, hvalues, -⟩ := areBytes_iff.1 h
    exact ⟨_, _, rfl, hvalues⟩
  | full h =>
    obtain ⟨values, hvalues, -⟩ := areBytes_iff.1 h
    exact ⟨_, _, rfl, hvalues⟩

/-- The texts of the three forms, and no others, are written colors. -/
theorem exists_isWritten_iff {w : Text} : (∃ c, IsWritten w c) ↔ HasForm w := by
  constructor
  · rintro ⟨c, h⟩
    obtain ⟨digits, values, rfl, hvalues⟩ := h.exists_areHexDigits
    refine ⟨digits, rfl, ?_, Text.exists_areHexDigits_iff.1 ⟨values, hvalues⟩⟩
    have hsome := (ofDigits?_eq_some_iff hvalues).2 h
    by_contra hlength
    rw [List.Forall₂.length_eq hvalues] at hlength
    rw [ofDigits?_eq_none_iff.2 hlength] at hsome
    cases hsome
  · rintro ⟨digits, rfl, hlength, hdigits⟩
    obtain ⟨values, hvalues⟩ := Text.exists_areHexDigits_iff.2 hdigits
    rw [List.Forall₂.length_eq hvalues] at hlength
    cases hcolor : ofDigits? values with
    | none => exact absurd hlength (ofDigits?_eq_none_iff.1 hcolor)
    | some c => exact ⟨c, (ofDigits?_eq_some_iff hvalues).1 hcolor⟩

theorem hasForm_of_ofDigits? {digits : Text} {values : List Nat} {c : Color}
    (hvalues : Text.AreHexDigits digits values) (h : ofDigits? values = some c) :
    HasForm ('#' :: digits) :=
  exists_isWritten_iff.1 ⟨c, (ofDigits?_eq_some_iff hvalues).1 h⟩

/-! ## Reading by offsets -/

namespace Reading

variable (written : Text) {digits : Text} {values : List Nat}

/-- What does not fail goes on with its value. -/
theorem bind_some {α β : Type} (a : α) (f : α → Reading β) :
    ((liftM (some a) : Reading α) >>= f) = f a := rfl

/-- Between digits no cut fails, and the part between two offsets is read as a number. -/
theorem number_eq (h : Text.AreHexDigits digits values) (start : Nat) {n : Nat} (hpos : 0 < n)
    (hle : start + n ≤ values.length)
    (hbound : Text.ofDigitValues 16 ((values.drop start).take n) ≤ 0xFF) :
    number written digits start (start + n) =
      pure (Text.ofDigitValues 16 ((values.drop start).take n)) := by
  have hlength : digits.length = values.length := List.Forall₂.length_eq h
  have hpart : Text.AreHexDigits ((digits.drop start).take n) ((values.drop start).take n) :=
    List.forall₂_take n (List.forall₂_drop start h)
  have hne : (digits.drop start).take n ≠ [] := by
    rw [← List.length_pos_iff, List.length_take, List.length_drop]
    omega
  rw [number, Text.slice?_eq_of_utf8Size h.utf8Size (by omega), bind_some,
    Text.readHexNumber?_of_areHexDigits hpart hne hbound]

theorem shortChannel_eq (h : Text.AreHexDigits digits values) (start : Nat) {n : Nat}
    {rest : List Nat} (hvalues : values.drop start = n :: rest) :
    shortChannel written digits start = pure (byteOfDigits n n) := by
  have hn : n < 16 := h.lt n (List.mem_of_mem_drop (hvalues ▸ List.mem_cons_self))
  have hlength := congrArg List.length hvalues
  rw [List.length_drop, List.length_cons] at hlength
  have hvalue : Text.ofDigitValues 16 ((values.drop start).take 1) = n := by
    rw [hvalues]
    exact Nat.zero_add n
  have hnumber := number_eq written h start Nat.one_pos (by omega) (by omega)
  have hproduct : n * 0x11 = 16 * n + n := by omega
  rw [shortChannel, hnumber, hvalue, pure_bind, hproduct, byteOfNat?, if_pos (by omega)]
  rfl

theorem longChannel_eq (h : Text.AreHexDigits digits values) (start : Nat) {m n : Nat}
    {rest : List Nat} (hvalues : values.drop start = m :: n :: rest) :
    longChannel written digits start = pure (byteOfDigits m n) := by
  have hmem : ∀ k ∈ m :: n :: rest, k < 16 := fun k hk =>
    h.lt k (List.mem_of_mem_drop (hvalues ▸ hk))
  obtain ⟨hm, hmem⟩ := List.forall_mem_cons.1 hmem
  obtain ⟨hn, -⟩ := List.forall_mem_cons.1 hmem
  have hlength := congrArg List.length hvalues
  rw [List.length_drop, List.length_cons, List.length_cons] at hlength
  have hvalue : Text.ofDigitValues 16 ((values.drop start).take 2) = 16 * m + n := by
    rw [hvalues]
    exact congrArg (fun k => 16 * k + n) (Nat.zero_add m)
  have hnumber := number_eq written h start Nat.two_pos (by omega) (by omega)
  rw [longChannel, hnumber, hvalue, pure_bind, byteOfNat?, if_pos (by omega)]
  rfl

/-- The digits are read as the color that they stand for, if they do. -/
theorem ofDigits_eq (h : Text.AreHexDigits digits values) :
    ofDigits written digits =
      match Color.ofDigits? values with
      | some c => pure c
      | none => throw (.invalid written) := by
  have hlength : Text.byteLength digits = values.length :=
    (Text.byteLength_eq_length h.utf8Size).trans (List.Forall₂.length_eq h)
  cases hcolor : Color.ofDigits? values with
  | none =>
    have hform := ofDigits?_eq_none_iff.1 hcolor
    unfold ofDigits
    split
    · omega
    · omega
    · omega
    · rfl
  | some c =>
    unfold Color.ofDigits? at hcolor
    unfold ofDigits
    rw [hlength]
    split at hcolor
    · obtain rfl := Option.some.inj hcolor
      show (shortChannel written digits 0 >>= _) = _
      rw [shortChannel_eq written h 0 rfl, pure_bind, shortChannel_eq written h 1 rfl, pure_bind,
        shortChannel_eq written h 2 rfl, pure_bind]
    · obtain rfl := Option.some.inj hcolor
      show (longChannel written digits 0 >>= _) = _
      rw [longChannel_eq written h 0 rfl, pure_bind, longChannel_eq written h 2 rfl, pure_bind,
        longChannel_eq written h 4 rfl, pure_bind]
    · obtain rfl := Option.some.inj hcolor
      show (longChannel written digits 0 >>= _) = _
      rw [longChannel_eq written h 0 rfl, pure_bind, longChannel_eq written h 2 rfl, pure_bind,
        longChannel_eq written h 4 rfl, pure_bind, longChannel_eq written h 6 rfl, pure_bind]
    · cases hcolor

theorem ofWritten_of_isWritten {w : Text} {c : Color} (h : IsWritten w c) :
    ofWritten w = pure c := by
  obtain ⟨digits, values, rfl, hvalues⟩ := h.exists_areHexDigits
  rw [ofWritten, if_pos (Text.all_isHexByte_iff.2 ⟨values, hvalues⟩), ofDigits_eq _ hvalues,
    (ofDigits?_eq_some_iff hvalues).2 h]

theorem ofWritten_of_not_hasForm {w : Text} (hne : w ≠ []) (h : ¬ HasForm w) :
    ofWritten w = throw (.invalid w) := by
  unfold ofWritten
  split
  · exact absurd rfl hne
  · rename_i digits
    split
    · rename_i hall
      obtain ⟨values, hvalues⟩ := Text.all_isHexByte_iff.1 hall
      rw [ofDigits_eq _ hvalues]
      cases hcolor : Color.ofDigits? values with
      | none => rfl
      | some c => exact absurd (hasForm_of_ofDigits? hvalues hcolor) h
    · rfl
  · rfl

end Reading

/-! ## Results -/

section Parse

variable {t : Text} {c : Color}

theorem parse_of_trim_eq_nil (h : t.trim = []) : parse t = .error .empty := by
  rw [parse, h]

theorem parse_of_isWritten (h : IsWritten t.trim c) : parse t = .ok c := by
  obtain ⟨digits, values, htrim, hvalues⟩ := h.exists_areHexDigits
  rw [htrim] at h
  have hcolor := (ofDigits?_eq_some_iff hvalues).2 h
  simp only [parse, htrim, beq_self_eq_true, if_true, Text.mapM_hexValue?_eq_some_iff.2 hvalues,
    Option.bind_some, hcolor]

theorem parse_of_not_hasForm (hne : t.trim ≠ []) (h : ¬ HasForm t.trim) :
    parse t = .error (.invalid t.trim) := by
  unfold parse
  split
  · rename_i hnil
    exact absurd hnil hne
  · rename_i d digits htrim
    rw [htrim] at h
    split
    · rename_i color hcolor
      split at hcolor
      · rename_i hd
        obtain rfl := eq_of_beq hd
        obtain ⟨values, hvalues, hcolor⟩ := Option.bind_eq_some_iff.1 hcolor
        have hdigits := Text.mapM_hexValue?_eq_some_iff.1 hvalues
        exact absurd (hasForm_of_ofDigits? hdigits hcolor) h
      · cases hcolor
    · rw [htrim]

/-- A text is a color, or nothing, or neither. -/
theorem parse_cases (t : Text) :
    (t.trim = [] ∧ parse t = .error .empty) ∨
      (∃ c, IsWritten t.trim c ∧ parse t = .ok c) ∨
      (t.trim ≠ [] ∧ ¬ HasForm t.trim ∧ parse t = .error (.invalid t.trim)) := by
  by_cases hnil : t.trim = []
  · exact Or.inl ⟨hnil, parse_of_trim_eq_nil hnil⟩
  by_cases hform : HasForm t.trim
  · obtain ⟨c, hc⟩ := exists_isWritten_iff.2 hform
    exact Or.inr (Or.inl ⟨c, hc, parse_of_isWritten hc⟩)
  · exact Or.inr (Or.inr ⟨hnil, hform, parse_of_not_hasForm hnil hform⟩)

/-- No cut fails and no product is too large, whatever the text is. -/
theorem read?_eq (t : Text) : read? t = some (parse t) := by
  rcases parse_cases t with ⟨hnil, hparse⟩ | ⟨c, hc, hparse⟩ | ⟨hne, hform, hparse⟩
  · rw [read?, hnil, hparse]
    rfl
  · rw [read?, Reading.ofWritten_of_isWritten hc, hparse]
    rfl
  · rw [read?, Reading.ofWritten_of_not_hasForm hne hform, hparse]
    rfl

theorem parse_eq_empty_iff : parse t = .error .empty ↔ t.trim = [] := by
  refine ⟨fun h => ?_, parse_of_trim_eq_nil⟩
  rcases parse_cases t with ⟨hnil, -⟩ | ⟨c, -, hparse⟩ | ⟨-, -, hparse⟩
  · exact hnil
  · rw [hparse] at h
    cases h
  · rw [hparse] at h
    cases h

theorem parse_eq_ok_iff : parse t = .ok c ↔ IsWritten t.trim c := by
  refine ⟨fun h => ?_, parse_of_isWritten⟩
  rcases parse_cases t with ⟨-, hparse⟩ | ⟨c', hc, hparse⟩ | ⟨-, -, hparse⟩
  · rw [hparse] at h
    cases h
  · rw [hparse] at h
    cases h
    exact hc
  · rw [hparse] at h
    cases h

theorem toOption_parse_eq_some_iff : (parse t).toOption = some c ↔ parse t = .ok c := by
  cases parse t with
  | ok c' => exact ⟨fun h => congrArg _ (Option.some.inj h), fun h => congrArg _ (Except.ok.inj h)⟩
  | error _ => constructor <;> intro h <;> cases h

theorem parse_eq_invalid_iff {w : Text} :
    parse t = .error (.invalid w) ↔ w = t.trim ∧ t.trim ≠ [] ∧ ¬ HasForm t.trim := by
  constructor
  · intro h
    rcases parse_cases t with ⟨-, hparse⟩ | ⟨c', -, hparse⟩ | ⟨hne, hform, hparse⟩
    · rw [hparse] at h
      cases h
    · rw [hparse] at h
      cases h
    · rw [hparse] at h
      cases h
      exact ⟨rfl, hne, hform⟩
  · rintro ⟨rfl, hne, hform⟩
    exact parse_of_not_hasForm hne hform

end Parse

/-! ## The canonical form -/

/-- A text is a number sign and upper-case digits, six of them, or eight that do not end with the
digits of a solid alpha value. -/
def IsCanonical (w : Text) : Prop :=
  ∃ digits, w = '#' :: digits ∧ (∀ d ∈ digits, d ∈ "0123456789ABCDEF".toList) ∧
    (digits.length = 6 ∨ digits.length = 8 ∧ ¬ ['F', 'F'] <:+ digits)

/-- The bytes that are written for a color. -/
def bytes (c : Color) : List UInt8 := [c.r, c.g, c.b] ++ if c.isSolid then [] else [c.a]

theorem isByte_hexByte (b : UInt8) :
    IsByte (Text.hexDigit (b.toNat / 16)) (Text.hexDigit (b.toNat % 16)) b := by
  have hb := b.toNat_lt
  exact ⟨_, _, Text.isHexDigit_hexDigit (by omega), Text.isHexDigit_hexDigit (by omega), by omega⟩

/-- The digits that are written for bytes stand for them. -/
theorem areBytes_flatMap (bytes : List UInt8) : AreBytes (bytes.flatMap Text.hexByte) bytes := by
  induction bytes with
  | nil => exact .nil
  | cons b bytes ih => exact .cons (isByte_hexByte b) ih

/-- Upper-case digits are those that are written for their bytes. -/
theorem AreBytes.eq_flatMap {digits : Text} {bytes : List UInt8} (h : AreBytes digits bytes)
    (hupper : ∀ d ∈ digits, d ∈ "0123456789ABCDEF".toList) :
    digits = bytes.flatMap Text.hexByte := by
  induction h with
  | nil => rfl
  | cons hb _ ih =>
    obtain ⟨m, n, hhigh, hlow, hvalue⟩ := hb
    obtain ⟨hm, hrest⟩ := List.forall_mem_cons.1 hupper
    obtain ⟨hn, hrest⟩ := List.forall_mem_cons.1 hrest
    have hlt := hlow.lt
    rw [List.flatMap_cons, ← ih hrest, Text.hexByte, hvalue, hhigh.eq_hexDigit hm,
      hlow.eq_hexDigit hn, Nat.mul_add_div (by omega), Nat.div_eq_of_lt hlt, Nat.mul_add_mod,
      Nat.mod_eq_of_lt hlt, Nat.add_zero]
    rfl

theorem hexByte_upper {b : UInt8} : ∀ d ∈ Text.hexByte b, d ∈ "0123456789ABCDEF".toList := by
  have hb := b.toNat_lt
  exact List.forall_mem_cons.2 ⟨Text.hexDigit_mem (by omega),
    List.forall_mem_singleton.2 (Text.hexDigit_mem (by omega))⟩

theorem render_eq (c : Color) : c.render = '#' :: c.bytes.flatMap Text.hexByte := by
  unfold render bytes
  split <;> simp

/-- A byte has one value. -/
theorem IsByte.unique {high low : Char} {b b' : UInt8} (h : IsByte high low b)
    (h' : IsByte high low b') : b = b' := by
  obtain ⟨m, n, hhigh, hlow, hb⟩ := h
  obtain ⟨m', n', hhigh', hlow', hb'⟩ := h'
  rw [← UInt8.toNat_inj, hb, hb', hhigh.unique hhigh', hlow.unique hlow']

/-- Only the largest byte is written with the two largest digits. -/
theorem not_suffix_hexByte {b : UInt8} (h : b ≠ 0xFF) (front : Text) :
    ¬ ['F', 'F'] <:+ front ++ Text.hexByte b := by
  rintro ⟨rest, hrest⟩
  have hdigits : ['F', 'F'] = Text.hexByte b := (List.append_inj' hrest rfl).2
  have hbyte := isByte_hexByte b
  have hlargest : IsByte 'F' 'F' 0xFF := isByte_hexByte 0xFF
  injection hdigits with hhigh hlow
  injection hlow with hlow
  rw [← hhigh, ← hlow] at hbyte
  exact h (hbyte.unique hlargest)

section Render

variable {c : Color}

theorem isSolid_iff : c.isSolid = true ↔ c.a = 0xFF := beq_iff_eq

theorem bytes_of_solid (h : c.a = 0xFF) : c.bytes = [c.r, c.g, c.b] := by
  rw [bytes, if_pos (isSolid_iff.2 h), List.append_nil]

theorem bytes_of_not_solid (h : c.a ≠ 0xFF) : c.bytes = [c.r, c.g, c.b, c.a] := by
  rw [bytes, if_neg (mt isSolid_iff.1 h)]
  rfl

/-- What is written for a color is a written form of it. -/
theorem isWritten_render (c : Color) : IsWritten c.render c := by
  rw [render_eq]
  have hdigits := areBytes_flatMap c.bytes
  by_cases ha : c.a = 0xFF
  · rw [bytes_of_solid ha] at hdigits ⊢
    have hlong := IsWritten.long hdigits
    rwa [← ha] at hlong
  · rw [bytes_of_not_solid ha] at hdigits ⊢
    exact .full hdigits

/-- A color is written with two digits for its alpha value exactly if it is not solid. -/
theorem length_render (c : Color) : c.render.length = if c.a = 0xFF then 7 else 9 := by
  rw [render_eq]
  split
  · rw [bytes_of_solid ‹_›]
    rfl
  · rw [bytes_of_not_solid ‹_›]
    rfl

theorem isCanonical_render (c : Color) : IsCanonical c.render := by
  refine ⟨_, render_eq c, ?_, ?_⟩
  · intro d hd
    obtain ⟨b, -, hd⟩ := List.mem_flatMap.1 hd
    exact hexByte_upper d hd
  · by_cases ha : c.a = 0xFF
    · rw [bytes_of_solid ha]
      exact Or.inl rfl
    · rw [bytes_of_not_solid ha]
      exact Or.inr ⟨rfl, not_suffix_hexByte ha [_, _, _, _, _, _]⟩

/-- A color has one canonical form. -/
theorem IsWritten.eq_render {w : Text} (h : IsWritten w c) (hw : IsCanonical w) : w = c.render := by
  obtain ⟨digits, rfl, hupper, hlength⟩ := hw
  rw [render_eq]
  cases h with
  | short h =>
    rcases hlength with hlength | ⟨hlength, -⟩ <;> cases hlength
  | long h => rw [h.eq_flatMap hupper, bytes_of_solid rfl]
  | @full _ x y z a h =>
    have hdigits := h.eq_flatMap hupper
    have ha : a ≠ 0xFF := by
      rintro rfl
      rw [hdigits] at hlength
      rcases hlength with hlength | ⟨-, hend⟩
      · cases hlength
      · exact hend (List.suffix_append (Text.hexByte x ++ Text.hexByte y ++ Text.hexByte z) _)
    rw [hdigits, bytes_of_not_solid ha]

/-- There are no blanks in a canonical form. -/
theorem IsCanonical.trim_eq {w : Text} (h : IsCanonical w) : w.trim = w := by
  obtain ⟨digits, rfl, hupper, -⟩ := h
  have hplain : ('#' :: "0123456789ABCDEF".toList).all (fun d => !isBlank d) = true := by decide
  refine Text.trim_eq_self_of_forall fun d hd => ?_
  have hd' := List.all_eq_true.1 hplain d (List.cons_subset_cons _ hupper hd)
  simpa using hd'

/-- What is written for a color is read back. -/
theorem parse_render (c : Color) : parse c.render = .ok c := by
  rw [parse_eq_ok_iff, (isCanonical_render c).trim_eq]
  exact isWritten_render c

end Render

/-! ## The short form -/

/-- The short form is the long one with each digit doubled. -/
theorem isWritten_short_iff {r g b : Char} {c : Color} :
    IsWritten ['#', r, g, b] c ↔ IsWritten ['#', r, r, g, g, b, b] c := by
  constructor
  · rintro (h | h | h)
    · exact .long h
    · obtain - | ⟨-, - | ⟨-, h⟩⟩ := h
    · obtain - | ⟨-, - | ⟨-, h⟩⟩ := h
  · rintro (h | h | h)
    · exact .short h
    · obtain - | ⟨-, - | ⟨-, - | ⟨-, ⟨⟩⟩⟩⟩ := h

/-! ## Texts and colors -/

/-- Every text has one part between the blanks at its ends, and what is read depends on it alone. No
cut of the text fails. The text counts as empty exactly if the part is, and as a color exactly if
the part is a number sign and three, six or eight hexadecimal digits; otherwise the part is refused.
A digit of the short form stands for two of its kind. What is written for a color is read back, and
is the one canonical form of the color, with digits for the alpha value unless the color is
solid. -/
theorem parse_exact (t : Text) :
    (∃ core, (∀ part, t.IsTrimmed part ↔ part = core) ∧
      read? t = some (parse t) ∧
      (parse t = .error .empty ↔ core = []) ∧
      ((∃ c, parse t = .ok c) ↔ HasForm core) ∧
      (∀ w, parse t = .error (.invalid w) ↔ w = core ∧ core ≠ [] ∧ ¬ HasForm core) ∧
      (∀ c, parse t = .ok c ↔ IsWritten core c) ∧
      (∀ r g b, core = ['#', r, g, b] →
        ∀ c, parse t = .ok c ↔ parse ['#', r, r, g, g, b, b] = .ok c)) ∧
    ∀ c : Color, read? c.render = some (.ok c) ∧ parse c.render = .ok c ∧
      (∀ w, IsCanonical w ∧ IsWritten w c ↔ w = c.render) ∧
      c.render.length = if c.a = 0xFF then 7 else 9 := by
  refine ⟨⟨t.trim, fun part => Text.isTrimmed_iff, read?_eq t, parse_eq_empty_iff, ?_,
    fun w => parse_eq_invalid_iff, fun c => parse_eq_ok_iff, fun r g b hshort c => ?_⟩,
    fun c => ⟨(read?_eq _).trans (congrArg some (parse_render c)), parse_render c, fun w => ?_,
      length_render c⟩⟩
  · simp only [parse_eq_ok_iff]
    exact exists_isWritten_iff
  · -- the doubled digits have no blanks at their ends either
    have htrimmed := Text.isTrimmed_trim t
    rw [hshort] at htrimmed
    have hdouble : Text.trim ['#', r, r, g, g, b, b] = ['#', r, r, g, g, b, b] :=
      Text.trim_eq_self htrimmed.head htrimmed.last
    rw [parse_eq_ok_iff, parse_eq_ok_iff, hshort, hdouble]
    exact isWritten_short_iff
  · constructor
    · rintro ⟨hcanonical, hwritten⟩
      exact hwritten.eq_render hcanonical
    · rintro rfl
      exact ⟨isCanonical_render c, isWritten_render c⟩

/-- A color in the short form between blanks. -/
theorem parse_short_form_between_blanks :
    parse " #0af ".toList = .ok ⟨0x00, 0xAA, 0xFF, 0xFF⟩ ∧
      parse "#00aaff".toList = .ok ⟨0x00, 0xAA, 0xFF, 0xFF⟩ ∧
      IsCanonical "#00AAFF".toList ∧ IsWritten "#00AAFF".toList ⟨0x00, 0xAA, 0xFF, 0xFF⟩ := by
  obtain ⟨⟨core, hcore, -, -, -, -, -, hshort⟩, hrender⟩ := parse_exact " #0af ".toList
  have htrimmed : core = ['#', '0', 'a', 'f'] :=
    ((hcore _).1 (Text.isTrimmed_iff.2 (by decide))).symm
  have hparse : parse " #0af ".toList = .ok ⟨0x00, 0xAA, 0xFF, 0xFF⟩ := by decide
  exact ⟨hparse, (hshort '0' 'a' 'f' htrimmed _).1 hparse,
    ((hrender ⟨0x00, 0xAA, 0xFF, 0xFF⟩).2.2.1 _).2 (by decide)⟩

end Color

end ClassHighlight
