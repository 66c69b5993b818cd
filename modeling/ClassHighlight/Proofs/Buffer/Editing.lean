import Mathlib.Order.Bounds.Basic
import ClassHighlight.Proofs.Buffer.InPlace

/-!
# What edits do to a text and its cursor

Inserting, removing and replacing are one thing: a range of the text gives way to other characters.
A cursor before the range keeps the characters before it, any other keeps the characters behind it.
These laws hold of every buffer that operations in place lead to, and so does that its cursor stands
within the text and between two characters.
-/

namespace ClassHighlight

namespace RawBuffer

variable {b : RawBuffer} {start stop : Nat} {t : Text}

/-! ## Edits -/

/-- In one buffer a range of characters was replaced, and the other one is the result. -/
structure IsEdit (b : RawBuffer) (start stop : Nat) (t : Text) (after : RawBuffer) : Prop where
  /-- What stood before and behind the range is kept. -/
  text : after.text = b.text.take start ++ t ++ b.text.drop stop
  /-- A cursor before the range stays; any other moves by what the text grows from there. -/
  cursor : after.cursor =
    if b.cursor < start then b.cursor else max b.cursor stop - (stop - start) + t.length
  /-- A cursor before the range has the same characters before it. -/
  before : b.cursor < start → after.text.take after.cursor = b.text.take b.cursor
  /-- Any other has the characters behind it that stood behind it and the range. -/
  behind : start ≤ b.cursor → after.text.drop after.cursor = b.text.drop (max b.cursor stop)
  /-- The buffer counts as edited, even if its text is the same. -/
  isModified : after.isModified = true
  /-- It belongs to the same file. -/
  path : after.path? = b.path?

/-- The characters before a cursor that stands before the range. -/
theorem take_cursor_replaced (hin : start ≤ b.text.length) (h : b.cursor < start) :
    (b.replaced start stop t).text.take (b.replaced start stop t).cursor =
      b.text.take b.cursor := by
  have hlength : (b.text.take start).length = start := List.length_take_of_le hin
  simp only [replaced]
  rw [if_pos h, List.append_assoc, List.take_append_of_le_length (by omega), List.take_take,
    Nat.min_eq_left (Nat.le_of_lt h)]

/-- The characters behind a cursor that does not stand before the range. -/
theorem drop_cursor_replaced (hle : start ≤ stop) (hin : stop ≤ b.text.length)
    (h : start ≤ b.cursor) :
    (b.replaced start stop t).text.drop (b.replaced start stop t).cursor =
      b.text.drop (max b.cursor stop) := by
  -- the cursor is as far behind the new characters as it was behind the range
  have hcursor : (b.replaced start stop t).cursor =
      start + t.length + (max b.cursor stop - stop) := by
    simp only [replaced]
    rw [if_neg (Nat.not_lt.2 h)]
    omega
  have hrange := (take_and_drop_replaced (Nat.le_trans hle hin) stop t).2
  have hbehind : stop + (max b.cursor stop - stop) = max b.cursor stop := by omega
  rw [hcursor, ← List.drop_drop]
  simp only [replaced]
  rw [hrange, List.drop_drop, hbehind]

theorem isEdit_replaced (hle : start ≤ stop) (hin : stop ≤ b.text.length) :
    b.IsEdit start stop t (b.replaced start stop t) := by
  constructor
  · rfl
  · rfl
  · intro h
    exact take_cursor_replaced (Nat.le_trans hle hin) h
  · intro h
    exact drop_cursor_replaced hle hin h
  · rfl
  · rfl

/-- The characters that were put in place of a range are found there. -/
theorem take_drop_text_replaced (hin : start ≤ b.text.length) :
    ((b.replaced start stop t).text.take (start + t.length)).drop start = t := by
  have hlength : (b.text.take start).length = start := List.length_take_of_le hin
  simp only [replaced]
  rw [List.take_left' (by rw [List.length_append, hlength]), List.drop_left' hlength]

/-! ## The laws -/

/-- What holds of a buffer at all times, and what operations in place do to it when they are
allowed. -/
structure FollowsEdits (b : RawBuffer) : Prop where
  /-- The cursor stands within the text. -/
  within : b.cursor ≤ b.text.length
  /-- It does not stand inside a character. -/
  boundary : b.text.IsBoundary b.cursorOffset
  /-- A range is replaced and its characters are given back; putting them back in place of the new
  ones gives the new ones and restores the text. -/
  replace : ∀ start stop t, start ≤ stop → stop ≤ b.text.length →
    ∃ after restored, (replace start stop t).on b = (.ok ((b.text.take stop).drop start), after) ∧
      b.IsEdit start stop t after ∧
      (replace start (start + t.length) ((b.text.take stop).drop start)).on after =
        (.ok t, restored) ∧
      restored.text = b.text
  /-- Characters are inserted in place of an empty range. -/
  insert : ∀ index t, index ≤ b.text.length →
    ∃ after, (insert index t).on b = (.ok (), after) ∧ b.IsEdit index index t after ∧
      after.cursor = if b.cursor < index then b.cursor else b.cursor + t.length
  /-- A range is removed when nothing is put in its place. -/
  delete : ∀ start stop, start ≤ stop → stop ≤ b.text.length →
    ∃ after, (delete start stop).on b = (.ok ((b.text.take stop).drop start), after) ∧
      b.IsEdit start stop [] after ∧
      after.cursor = if b.cursor ≤ start then b.cursor
        else if b.cursor < stop then start else b.cursor - (stop - start)
  /-- The cursor moves to the last boundary that is not behind the offset, and nothing else
  changes. -/
  setCursor : ∀ offset, offset ≤ Text.byteLength b.text →
    ∃ index, (setCursor offset).on b = (.ok (), { b with cursor := index }) ∧
      IsGreatest {n | b.text.IsBoundary n ∧ n ≤ offset} ({ b with cursor := index }).cursorOffset

theorem followsEdits_of_within (h : b.cursor ≤ b.text.length) : b.FollowsEdits := by
  constructor
  · exact h
  · exact Text.isBoundary_take b.text b.cursor
  · intro start stop t hle hin
    have hafter : start + t.length ≤ (b.replaced start stop t).text.length := by
      simp only [replaced, List.length_append, List.length_take]
      omega
    refine ⟨_, _, ?_, isEdit_replaced hle hin, ?_, text_replaced_removed b hle⟩
    · rw [on_replace, if_neg (Nat.not_lt.2 hin), if_neg (Nat.not_lt.2 hle)]
    · rw [on_replace, if_neg (Nat.not_lt.2 hafter), if_neg (Nat.not_lt.2 (Nat.le_add_right _ _)),
        take_drop_text_replaced (Nat.le_trans hle hin), replaced_replaced hle hin]
  · intro index t hin
    refine ⟨_, ?_, isEdit_replaced (Nat.le_refl index) hin, ?_⟩
    · rw [on_insert, if_neg (Nat.not_lt.2 hin)]
    · simp only [replaced]
      split <;> omega
  · intro start stop hle hin
    refine ⟨_, ?_, isEdit_replaced hle hin, ?_⟩
    · rw [on_delete, if_neg (Nat.not_lt.2 hin), if_neg (Nat.not_lt.2 hle)]
    · simp only [replaced, List.length_nil]
      split_ifs <;> omega
  · intro offset hin
    refine ⟨Text.indexOfByte offset b.text, ?_, ⟨?_, ?_⟩, ?_⟩
    · rw [on_setCursor, if_neg (Nat.not_lt.2 hin)]
    · exact Text.isBoundary_take b.text _
    · exact Text.byteLength_take_indexOfByte_le offset b.text
    · rintro n ⟨hboundary, hle⟩
      exact hboundary.le_byteLength_take hle

/-- Whatever is done in place to a text that was loaded, what is left is what the same operations
make of the buffer as a whole, each further operation gives what it gives there, and the laws of
edits hold. -/
theorem run_followsEdits (text : Text) (path? : Option Text) (ops : List Buffer.Operation) :
    let whole := ({ Buffer.ofText text with path? }).run ops
    (fresh text path?).run ops = whole.raw ∧
      (∀ op, (perform op).on whole.raw = whole.asChange (whole.attempt op)) ∧
      whole.raw.FollowsEdits := by
  intro whole
  refine ⟨?_, ?_, followsEdits_of_within whole.cursor_le⟩
  · exact Buffer.run_raw { Buffer.ofText text with path? } ops
  · intro op
    exact Buffer.on_perform_raw whole op

/-- A cursor in a range moves behind what replaces it. -/
example : (replace 1 3 "xyz".toList).on ⟨"aéé→b".toList, 2, false, none⟩ =
    (.ok "éé".toList, ⟨"axyz→b".toList, 4, true, none⟩) := rfl

end RawBuffer

end ClassHighlight
