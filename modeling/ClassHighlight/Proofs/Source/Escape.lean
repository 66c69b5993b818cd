import ClassHighlight.Proofs.Source.Mark
import ClassHighlight.Proofs.Text.Place

/-!
# Escapes in parts of a text

Whether a byte is escaped depends on the bytes before it alone, and can be told by going over them
from the front as well as by counting the backslashes back from the byte. So a part that starts where
nothing is escaped has the same escapes on its own as in the whole, and this is the case wherever no
backslash stands directly before it. A backslash is a character of one byte, so escapes go from one
character to the next as they go from one byte to the next.
-/

namespace ClassHighlight

section Parts

variable {front part : List UInt8} {i : Nat}

/-- What follows a place does not decide whether it is escaped. -/
theorem isEscaped_append_left (h : i ≤ front.length) (part : List UInt8) :
    isEscaped (front ++ part) i = isEscaped front i := by
  unfold isEscaped
  rw [List.take_append_of_le_length h]

/-- A part behind bytes that do not escape its first byte has its own escapes. -/
theorem isEscaped_append_right (hfront : isEscaped front front.length = false)
    (h : i ≤ part.length) : isEscaped (front ++ part) (front.length + i) = isEscaped part i := by
  induction i with
  | zero => exact (isEscaped_append_left (Nat.le_refl _) part).trans hfront
  | succ i ih =>
    have hpart : part[i]? = some part[i] := List.getElem?_eq_getElem h
    have hwhole : (front ++ part)[front.length + i]? = some part[i] := by
      rw [List.getElem?_append_right (Nat.le_add_right _ _), Nat.add_sub_cancel_left, hpart]
    rw [← Nat.add_assoc, isEscaped_succ hwhole, isEscaped_succ hpart, ih (by omega)]

/-! ## Going forward -/

/-- Whether a byte is escaped, told from the front: the first one is not, and any other one is if the
byte before it is a backslash and is not escaped. -/
def escapedFromFront (bytes : List UInt8) : Nat → Bool
  | 0 => false
  | i + 1 => bytes[i]? == some backslash && !escapedFromFront bytes i

/-- Counting the backslashes before a byte and going forward to it come to the same. -/
theorem isEscaped_eq_escapedFromFront {bs : List UInt8} (h : i ≤ bs.length) :
    isEscaped bs i = escapedFromFront bs i := by
  induction i with
  | zero => rfl
  | succ i ih =>
    have hb : bs[i]? = some bs[i] := List.getElem?_eq_getElem h
    rw [isEscaped_succ hb, ih (Nat.le_of_succ_le h), escapedFromFront, hb]
    rfl

/-! ## Slices -/

/-- No backslash stands directly before a place. -/
def IsClearAt (bytes : List UInt8) (start : Nat) : Prop :=
  start = 0 ∨ bytes[start - 1]? ≠ some backslash

variable {bs : List UInt8} {start stop : Nat}

theorem IsClearAt.isEscaped (h : IsClearAt bs start) (hle : start ≤ bs.length) :
    isEscaped bs start = false := by
  cases start with
  | zero => rfl
  | succ i =>
    have hb : bs[i]? = some bs[i] := List.getElem?_eq_getElem hle
    have hne : bs[i]? ≠ some backslash := h.resolve_left (Nat.succ_ne_zero i)
    rw [hb, Ne, Option.some.injEq] at hne
    rw [isEscaped_succ hb, escapesNext, beq_eq_false_iff_ne.2 hne]
    rfl

/-- A slice that starts where nothing is escaped has its own escapes. -/
theorem isEscaped_slice (hclear : isEscaped bs start = false) (hle : start ≤ stop)
    (hstop : stop ≤ bs.length) (hi : i ≤ stop - start) :
    isEscaped ((bs.take stop).drop start) i = isEscaped bs (start + i) := by
  have hfront : (bs.take start).length = start := List.length_take_of_le (by omega)
  have hpart : (bs.drop start).length = bs.length - start := List.length_drop
  have hstart : isEscaped (bs.take start) (bs.take start).length = false := by
    rw [← isEscaped_append_left (Nat.le_refl _) (bs.drop start), List.take_append_drop, hfront,
      hclear]
  have hwhole := @isEscaped_append_right (bs.take start) (bs.drop start) i hstart (by omega)
  rw [List.take_append_drop, hfront] at hwhole
  -- what follows the slice makes no difference either
  have hlength : i ≤ ((bs.drop start).take (stop - start)).length := by
    rw [List.length_take_of_le (by omega)]
    exact hi
  have hleft := isEscaped_append_left hlength ((bs.drop start).drop (stop - start))
  rw [List.take_append_drop] at hleft
  rw [hwhole, hleft, List.drop_take]

/-- A slice has its own escapes exactly if nothing is escaped where it starts. -/
theorem isEscaped_slice_iff (hle : start ≤ stop) (hstop : stop ≤ bs.length) :
    (∀ i ≤ stop - start, isEscaped ((bs.take stop).drop start) i = isEscaped bs (start + i)) ↔
      isEscaped bs start = false := by
  constructor
  · intro h
    exact (h 0 (Nat.zero_le _)).symm
  · intro hclear i hi
    exact isEscaped_slice hclear hle hstop hi

end Parts

/-! ## Characters -/

/-- No backslash stands directly behind another character. -/
theorem isClearAt_concat {c : Char} (hc : c ≠ '\\') (t behind : Text) :
    IsClearAt (Text.bytes (t ++ [c] ++ behind)) (Text.byteLength (t ++ [c])) := by
  right
  intro hlast
  -- the byte is one of the character's
  have hpos := c.utf8Size_pos
  have hat : (t ++ [c] ++ behind).HasAt (Text.byteLength t) [c] := ⟨t, behind, rfl, rfl⟩
  have hbyte := hat.getElem?_bytes (k := c.utf8Size - 1) (by simp; omega)
  rw [Text.byteLength_append, Text.byteLength_cons, Text.byteLength_nil, Nat.add_zero,
    Nat.add_sub_assoc hpos, hbyte, Text.bytes_singleton] at hlast
  exact hc (Text.eq_of_ascii_mem (by decide) (List.mem_of_getElem? hlast))

/-- No backslash stands directly behind a text that does not end with one. -/
theorem isClearAt_behind {t : Text} (h : ∀ c ∈ t.getLast?, c ≠ '\\') (behind : Text) :
    IsClearAt (Text.bytes (t ++ behind)) (Text.byteLength t) := by
  rcases List.eq_nil_or_concat t with rfl | ⟨front, c, rfl⟩
  · exact Or.inl rfl
  · rw [List.concat_eq_append] at h ⊢
    exact isClearAt_concat (h c List.getLast?_concat) front behind

/-- What follows a text does not decide whether the place behind it is escaped. -/
theorem isEscaped_behind (t behind : Text) :
    isEscaped (Text.bytes (t ++ behind)) (Text.byteLength t) =
      isEscaped (Text.bytes t) (Text.byteLength t) := by
  rw [Text.bytes_append, isEscaped_append_left (Nat.le_of_eq (Text.length_bytes t).symm)]

/-- A part of a text that starts where nothing is escaped has its own escapes. -/
theorem Text.HasAt.isEscaped_eq {t part : Text} {base i : Nat} (hat : t.HasAt base part)
    (hclear : isEscaped (Text.bytes t) base = false) (hi : i ≤ Text.byteLength part) :
    isEscaped (Text.bytes part) i = isEscaped (Text.bytes t) (base + i) := by
  rcases hat with ⟨before, after, rfl, rfl⟩
  rw [List.append_assoc, isEscaped_behind, ← Text.length_bytes] at hclear
  rw [← Text.length_bytes] at hi
  rw [Text.bytes_append, Text.bytes_append, List.append_assoc, ← Text.length_bytes,
    isEscaped_append_right hclear (by rw [List.length_append]; omega), isEscaped_append_left hi]

namespace IsClearAt

variable {t part : Text} {base i : Nat}

/-- A part of a text with no backslash directly before it has its own escapes. -/
theorem isEscaped_eq (h : IsClearAt (Text.bytes t) base) (hat : t.HasAt base part)
    (hi : i ≤ Text.byteLength part) :
    ClassHighlight.isEscaped (Text.bytes part) i =
      ClassHighlight.isEscaped (Text.bytes t) (base + i) := by
  have hle := hat.le_byteLength
  rw [← Text.length_bytes t] at hle
  exact hat.isEscaped_eq (h.isEscaped (by omega)) hi

/-- A part of a part that has no backslash directly before it there has none in the whole. -/
theorem trans {offset : Nat} (h : IsClearAt (Text.bytes t) base) (hat : t.HasAt base part)
    (hinner : IsClearAt (Text.bytes part) offset) (hle : offset ≤ Text.byteLength part) :
    IsClearAt (Text.bytes t) (base + offset) := by
  cases offset with
  | zero => exact h
  | succ k =>
    have hbyte : (Text.bytes part)[k]? ≠ some backslash := hinner.resolve_left (Nat.succ_ne_zero k)
    rw [← hat.getElem?_bytes hle] at hbyte
    exact Or.inr hbyte

end IsClearAt

/-- The place behind a character is escaped if the character is a backslash that is not. -/
theorem isEscaped_concat (t : Text) (c : Char) :
    isEscaped (Text.bytes (t ++ [c])) (Text.byteLength (t ++ [c])) =
      (c == '\\' && !isEscaped (Text.bytes t) (Text.byteLength t)) := by
  have hbytes : Text.bytes (t ++ [c]) = Text.bytes t ++ String.utf8EncodeChar c := by
    simp [Text.bytes]
  rw [← Text.length_bytes, ← Text.length_bytes, hbytes, List.length_append]
  by_cases hc : c = '\\'
  · subst hc
    have hone : String.utf8EncodeChar '\\' = [backslash] := by decide
    have hlast : (Text.bytes t ++ [backslash])[(Text.bytes t).length]? = some backslash :=
      List.getElem?_concat_length
    rw [hone, List.length_singleton, isEscaped_succ hlast,
      isEscaped_append_left (Nat.le_refl _)]
    rfl
  · -- the last byte of the character is no backslash
    have hclear := isClearAt_concat hc t []
    rw [List.append_nil, ← Text.length_bytes, hbytes] at hclear
    rw [← List.length_append, hclear.isEscaped (Nat.le_refl _), beq_eq_false_iff_ne.2 hc]
    rfl

end ClassHighlight
