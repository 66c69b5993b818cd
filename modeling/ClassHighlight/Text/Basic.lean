/-!
# Texts and their UTF-8 offsets

A text is the list of its characters. Offsets into a text count the bytes of its UTF-8 encoding,
so cutting a text at an offset can fail: the offset may lie past the end or inside a character.
-/

namespace ClassHighlight

/-- A text, as the sequence of its characters. -/
abbrev Text := List Char

namespace Text

/-- The UTF-8 encoding of a text. -/
def bytes (t : Text) : List UInt8 :=
  t.flatMap String.utf8EncodeChar

/-- The number of bytes in the UTF-8 encoding of a text. -/
def byteLength (t : Text) : Nat :=
  t.foldr (fun c n => c.utf8Size + n) 0

/-- The text that a byte sequence encodes, if it is valid UTF-8. -/
def ofBytes? (b : ByteArray) : Option Text :=
  (String.fromUTF8? b).map String.toList

/-- The byte sequence that encodes a text. -/
def encode (t : Text) : ByteArray := (String.ofList t).toUTF8

/-- Cuts a text after its first `n` bytes, if that is a character boundary. -/
def splitAtByte? : Nat → Text → Option (Text × Text)
  | 0, t => some ([], t)
  | _ + 1, [] => none
  | n + 1, c :: t =>
    if c.utf8Size ≤ n + 1 then
      (splitAtByte? (n + 1 - c.utf8Size) t).map fun (before, after) => (c :: before, after)
    else
      none

/-- The part of a text between two byte offsets, if both are character boundaries in order. -/
def slice? (t : Text) (start stop : Nat) : Option Text :=
  if start ≤ stop then
    (splitAtByte? start t).bind fun (_, after) =>
      (splitAtByte? (stop - start) after).map Prod.fst
  else
    none

/-- The index of the character that holds the byte at an offset, or the number of characters for
an offset at the end or past it. -/
def indexOfByte : Nat → Text → Nat
  | _, [] => 0
  | n, c :: t => if n < c.utf8Size then 0 else indexOfByte (n - c.utf8Size) t + 1

/-! ## Small laws of offsets -/

@[simp] theorem bytes_nil : bytes [] = [] := rfl

@[simp] theorem bytes_append (s t : Text) : bytes (s ++ t) = bytes s ++ bytes t := by
  simp [bytes]

@[simp] theorem byteLength_nil : byteLength [] = 0 := rfl

@[simp] theorem byteLength_cons (c : Char) (t : Text) :
    byteLength (c :: t) = c.utf8Size + byteLength t := rfl

@[simp] theorem byteLength_append (s t : Text) :
    byteLength (s ++ t) = byteLength s + byteLength t := by
  induction s with
  | nil => simp
  | cons c s ih => simp [ih, Nat.add_assoc]

/-- The length in bytes is the length of the encoding. -/
theorem length_bytes (t : Text) : (bytes t).length = byteLength t := by
  induction t with
  | nil => rfl
  | cons c t ih => simp_all [bytes, String.length_utf8EncodeChar]

/-- An encoded text is the text of its bytes. -/
@[simp] theorem ofBytes?_encode (t : Text) : ofBytes? (encode t) = some t := by
  have hvalid : (encode t).IsValidUTF8 := (String.ofList t).isValidUTF8
  rw [ofBytes?, String.fromUTF8?, dif_pos hvalid]
  exact congrArg some String.toList_ofList

/-- A cut loses nothing, and its first part has the asked length. -/
theorem eq_append_of_splitAtByte? {n : Nat} {t a b : Text} (h : splitAtByte? n t = some (a, b)) :
    t = a ++ b ∧ byteLength a = n := by
  fun_induction splitAtByte? n t generalizing a b with
  | case1 => simp_all
  | case2 => simp at h
  | case3 n c t hc ih =>
    obtain ⟨⟨a', b'⟩, hab, heq⟩ := Option.map_eq_some_iff.1 h
    obtain ⟨rfl, rfl⟩ : c :: a' = a ∧ b' = b := by simpa using heq
    obtain ⟨rfl, hlen⟩ := ih hab
    simp [hlen]
    omega
  | case4 => simp at h

/-- Every way of writing a text in two parts is found by its cut. -/
theorem splitAtByte?_append (a b : Text) : splitAtByte? (byteLength a) (a ++ b) = some (a, b) := by
  induction a with
  | nil => simp [splitAtByte?]
  | cons c a ih =>
    have hpos : 0 < c.utf8Size := c.utf8Size_pos
    obtain ⟨k, hk⟩ : ∃ k, byteLength (c :: a) = k + 1 := ⟨byteLength (c :: a) - 1, by simp; omega⟩
    have hle : c.utf8Size ≤ k + 1 := by rw [← hk]; simp
    have hrest : k + 1 - c.utf8Size = byteLength a := by rw [← hk]; simp
    rw [hk, List.cons_append, splitAtByte?, if_pos hle, hrest, ih]
    rfl

/-- The index of a byte never passes the number of characters. -/
theorem indexOfByte_le (n : Nat) (t : Text) : indexOfByte n t ≤ t.length := by
  fun_induction indexOfByte n t <;> simp_all

end Text

end ClassHighlight
