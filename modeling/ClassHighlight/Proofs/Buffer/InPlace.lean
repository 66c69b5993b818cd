import Mathlib.Tactic.SplitIfs
import ClassHighlight.Buffer.InPlace
import ClassHighlight.Proofs.Buffer.Position

/-!
# What changes in place amount to

Each operation on a buffer, run assignment by assignment, ends in one of two ways: it fails and has
assigned nothing, or it succeeds with the buffer that the operations on whole buffers give. The
insertion inside a replacement is never what fails.
-/

namespace ClassHighlight

/-- The range of characters that an operation edits, if it is an edit. -/
def Buffer.Operation.range? : Buffer.Operation → Option (Nat × Nat)
  | .insert index _ => some (index, index)
  | .delete start stop => some (start, stop)
  | .replace start stop _ => some (start, stop)
  | .setCursor _ => none
  | .setCursorPosition _ => none

namespace RawBuffer

open InPlace

variable {b : RawBuffer} {start stop : Nat}

/-! ## Replaced ranges -/

/-- The buffer after the characters in a range are replaced. A cursor before the range stays; any
other is moved behind the new characters, as far as it stood behind the range. -/
def replaced (b : RawBuffer) (start stop : Nat) (t : Text) : RawBuffer where
  text := b.text.take start ++ t ++ b.text.drop stop
  cursor := if b.cursor < start then b.cursor else max b.cursor stop - (stop - start) + t.length
  isModified := true
  path? := b.path?

/-- Of a text in which a range was replaced, what stood before and behind the range is left. -/
theorem take_and_drop_replaced {text : Text} (hstart : start ≤ text.length) (stop : Nat)
    (t : Text) :
    (text.take start ++ t ++ text.drop stop).take start = text.take start ∧
      (text.take start ++ t ++ text.drop stop).drop (start + t.length) = text.drop stop := by
  have hlength : (text.take start).length = start := List.length_take_of_le hstart
  constructor
  · rw [List.append_assoc]
    exact List.take_left' hlength
  · apply List.drop_left'
    rw [List.length_append, hlength]

/-- What was put in place of a range can be replaced in its turn. -/
theorem replaced_replaced (hle : start ≤ stop) (hstop : stop ≤ b.text.length) (t u : Text) :
    (b.replaced start stop t).replaced start (start + t.length) u = b.replaced start stop u := by
  obtain ⟨htake, hdrop⟩ := take_and_drop_replaced (Nat.le_trans hle hstop) stop t
  unfold replaced
  simp only [htake, hdrop, mk.injEq, and_self, and_true, true_and]
  -- what is left is where the cursor goes, before the range or not
  split_ifs <;> omega

/-- Putting the removed characters back restores the text. -/
theorem text_replaced_removed (b : RawBuffer) (hle : start ≤ stop) :
    (b.replaced start stop ((b.text.take stop).drop start)).text = b.text := by
  have hstart : b.text.take start = (b.text.take stop).take start := by
    rw [List.take_take, Nat.min_eq_left hle]
  unfold replaced
  simp only
  rw [hstart, List.take_append_drop, List.take_append_drop]

/-- Removing leaves enough characters to insert at the start of the range. -/
theorem le_length_replaced (hle : start ≤ stop) (hstop : stop ≤ b.text.length) (t : Text) :
    start ≤ (b.replaced start stop t).text.length := by
  simp only [replaced, List.length_append, List.length_take]
  omega

/-! ## Edits -/

/-- Inserting replaces an empty range. -/
theorem on_insert (b : RawBuffer) (index : Nat) (t : Text) :
    (insert index t).on b =
      if b.text.length < index then (.error (.charIndex index), b)
      else (.ok (), b.replaced index index t) := by
  by_cases hlength : b.text.length < index
  · simp only [insert, on_bind, on_get, on_throw, hlength, if_true]
  · simp only [insert, on_bind, on_get, on_ite, on_modify, hlength, if_false]
    by_cases hcursor : index ≤ b.cursor
    · have hnot : ¬ b.cursor < index := Nat.not_lt.2 hcursor
      simp only [if_pos hcursor, replaced, if_neg hnot, Nat.max_eq_left hcursor, Nat.sub_self,
        Nat.sub_zero]
    · simp only [if_neg hcursor, replaced, if_pos (Nat.lt_of_not_le hcursor)]

theorem on_checkRange (b : RawBuffer) (start stop : Nat) :
    (checkRange start stop).on b =
      if b.text.length < stop then (.error (.charIndex stop), b)
      else if stop < start then (.error (.charIndex start), b)
      else (.ok (), b) := by
  by_cases hstop : b.text.length < stop
  · simp only [checkRange, on_bind, on_get, on_throw, hstop, if_true]
  · simp only [checkRange, on_bind, on_get, on_ite, on_throw, on_pure, hstop, if_false]

/-- Removing replaces a range by nothing. -/
theorem on_delete (b : RawBuffer) (start stop : Nat) :
    (delete start stop).on b =
      if b.text.length < stop then (.error (.charIndex stop), b)
      else if stop < start then (.error (.charIndex start), b)
      else (.ok ((b.text.take stop).drop start), b.replaced start stop []) := by
  rw [delete, on_bind, on_checkRange]
  split_ifs with hstop hstart
  · rfl
  · rfl
  · simp only [on_bind, on_get, on_ite, on_modify, on_pure, replaced, List.append_nil,
      List.length_nil, Nat.add_zero]
    -- the cursor stands behind the range, in it, or at its start or before
    split_ifs with hbehind hin hbefore hbefore
    all_goals
      refine congrArg (Prod.mk _) ?_
      congr 1
      try omega

/-- After a removal that succeeds, the insertion in its place succeeds. -/
theorem on_insert_of_delete {left : RawBuffer} {removed : Text}
    (h : (delete start stop).on b = (.ok removed, left)) (t : Text) :
    (insert start t).on left = (.ok (), b.replaced start stop t) := by
  rw [on_delete] at h
  split_ifs at h with hstop hstart
  · cases h
  · cases h
  · obtain rfl : b.replaced start stop [] = left := congrArg Prod.snd h
    have hle : start ≤ stop := Nat.not_lt.1 hstart
    have hin : stop ≤ b.text.length := Nat.not_lt.1 hstop
    have hagain := replaced_replaced hle hin [] t
    rw [List.length_nil, Nat.add_zero] at hagain
    rw [on_insert, if_neg (Nat.not_lt.2 (le_length_replaced hle hin [])), hagain]

/-- Replacing removes a range and puts other characters in its place, or does neither. -/
theorem on_replace (b : RawBuffer) (start stop : Nat) (t : Text) :
    (replace start stop t).on b =
      if b.text.length < stop then (.error (.charIndex stop), b)
      else if stop < start then (.error (.charIndex start), b)
      else (.ok ((b.text.take stop).drop start), b.replaced start stop t) := by
  have hdelete := on_delete b start stop
  rw [replace]
  split_ifs at hdelete ⊢ with hstop hstart
  · exact on_bind_of_error hdelete _
  · exact on_bind_of_error hdelete _
  · rw [on_bind_of_ok hdelete, on_bind_of_ok (on_insert_of_delete hdelete t), on_pure]

/-! ## The cursor -/

theorem on_setCursor (b : RawBuffer) (offset : Nat) :
    (setCursor offset).on b =
      if Text.byteLength b.text < offset then (.error (.byteOffset offset), b)
      else (.ok (), { b with cursor := Text.indexOfByte offset b.text }) := by
  by_cases hlength : Text.byteLength b.text < offset
  · simp only [setCursor, on_bind, on_get, on_throw, hlength, if_true]
  · simp only [setCursor, on_bind, on_get, on_modify, hlength, if_false]

theorem on_setCursorPosition (b : RawBuffer) (p : Position) :
    (setCursorPosition p).on b =
      match Position.index? b.text p with
      | some index => (.ok (), { b with cursor := index })
      | none => (.error (.outOfBounds p), b) := by
  rw [setCursorPosition, on_bind, on_get]
  cases hindex : Position.index? b.text p with
  | some index => simp only [hindex, on_modify]
  | none => simp only [hindex, on_throw]

/-! ## Refusals -/

/-- An operation is not allowed on a buffer, for a reason. -/
inductive Refuses (b : RawBuffer) : Buffer.Operation → BufferError → Prop
  /-- A range has to end within the text. -/
  | behindEnd {op : Buffer.Operation} {start stop : Nat} (hrange : op.range? = some (start, stop))
      (hstop : b.text.length < stop) : Refuses b op (.charIndex stop)
  /-- It must not end before it starts. -/
  | inverted {op : Buffer.Operation} {start stop : Nat} (hrange : op.range? = some (start, stop))
      (hin : stop ≤ b.text.length) (hstart : stop < start) : Refuses b op (.charIndex start)
  /-- An offset has to lie within the text. -/
  | offset {offset : Nat} (h : Text.byteLength b.text < offset) :
      Refuses b (.setCursor offset) (.byteOffset offset)
  /-- A position has to be one of the text. -/
  | position {p : Position} (h : Position.index? b.text p = none) :
      Refuses b (.setCursorPosition p) (.outOfBounds p)

theorem on_setCursor_of_refuses {offset : Nat} {e : BufferError}
    (h : b.Refuses (.setCursor offset) e) : (setCursor offset).on b = (.error e, b) := by
  cases h with
  | behindEnd hrange hstop => cases hrange
  | inverted hrange hin hstart => cases hrange
  | offset h => rw [on_setCursor, if_pos h]

/-- Every edit checks its range before it assigns anything. -/
theorem on_perform_of_range {op : Buffer.Operation} (hrange : op.range? = some (start, stop)) :
    ∃ removed after, (perform op).on b =
      if b.text.length < stop then (.error (.charIndex stop), b)
      else if stop < start then (.error (.charIndex start), b)
      else (.ok removed, after) := by
  cases op with
  | insert index t =>
    obtain ⟨rfl, rfl⟩ : index = start ∧ index = stop := by
      simpa [Buffer.Operation.range?] using hrange
    refine ⟨[], b.replaced index index t, ?_⟩
    rw [perform, on_bind, on_insert]
    split_ifs with hlength hirrefl
    · rfl
    · exact absurd hirrefl (Nat.lt_irrefl index)
    · rfl
  | delete start stop =>
    cases hrange
    exact ⟨_, _, on_delete b start stop⟩
  | replace start stop t =>
    cases hrange
    exact ⟨_, _, on_replace b start stop t⟩
  | setCursor offset => cases hrange
  | setCursorPosition p => cases hrange

/-- An operation fails if it is refused, and then it has assigned nothing. -/
theorem on_perform_eq_error_iff {op : Buffer.Operation} {e : BufferError} {left : RawBuffer} :
    (perform op).on b = (.error e, left) ↔ b.Refuses op e ∧ left = b := by
  constructor
  · intro h
    cases hrange : op.range? with
    | some range =>
      obtain ⟨removed, after, heq⟩ := on_perform_of_range (b := b) hrange
      rw [heq] at h
      split_ifs at h with hstop hstart
      · cases h
        exact ⟨.behindEnd hrange hstop, rfl⟩
      · cases h
        exact ⟨.inverted hrange (Nat.not_lt.1 hstop) hstart, rfl⟩
      · cases h
    | none =>
      -- the operation moves the cursor
      cases op with
      | insert index t => cases hrange
      | delete start stop => cases hrange
      | replace start stop t => cases hrange
      | setCursor offset =>
        rw [perform, on_bind, on_setCursor] at h
        split_ifs at h with hlength
        · cases h
          exact ⟨.offset hlength, rfl⟩
        · cases h
      | setCursorPosition p =>
        rw [perform, on_bind, on_setCursorPosition] at h
        cases hindex : Position.index? b.text p with
        | none =>
          rw [hindex] at h
          cases h
          exact ⟨.position hindex, rfl⟩
        | some index =>
          rw [hindex] at h
          cases h
  · rintro ⟨hrefuses, rfl⟩
    cases hrefuses with
    | behindEnd hrange hstop =>
      obtain ⟨removed, after, heq⟩ := on_perform_of_range (b := left) hrange
      rw [heq, if_pos hstop]
    | inverted hrange hin hstart =>
      obtain ⟨removed, after, heq⟩ := on_perform_of_range (b := left) hrange
      rw [heq, if_neg (Nat.not_lt.2 hin), if_pos hstart]
    | offset h => rw [perform, on_bind, on_setCursor, if_pos h]
    | position h => rw [perform, on_bind, on_setCursorPosition, h]

end RawBuffer

/-! ## Whole buffers -/

namespace Buffer

open RawBuffer InPlace

variable {α : Type}

theorem confine_raw (b : Buffer) : b.raw.confine = b := by
  cases b
  simp_all [raw, confine]

/-- What an operation on a whole buffer gives, as a change of that buffer in place. -/
def asChange (b : Buffer) : Except BufferError (Buffer × α) → Except BufferError α × RawBuffer
  | .ok (next, a) => (.ok a, next.raw)
  | .error e => (.error e, b.raw)

/-- To give another value afterwards is the same in place. -/
theorem on_bind_pure {b : Buffer} {x : Change Unit} {result : Except BufferError Buffer}
    (h : x.on b.raw = b.asChange (result.map fun next => (next, ()))) (a : α) :
    InPlace.on (x >>= fun _ => pure a) b.raw =
      b.asChange (result.map fun next => (next, a)) := by
  cases result with
  | error e => exact on_bind_of_error h _
  | ok next => exact on_bind_of_ok h _

theorem on_insert_raw (b : Buffer) (index : Nat) (t : Text) :
    (RawBuffer.insert index t).on b.raw =
      b.asChange ((b.insert index t).map fun next => (next, ())) := by
  rw [on_insert, Buffer.insert, raw_text]
  by_cases h : index ≤ b.text.length
  · have hcursor : (b.raw.replaced index index t).cursor =
        if index ≤ b.cursor then b.cursor + t.length else b.cursor := by
      show (if b.cursor < index then b.cursor
        else max b.cursor index - (index - index) + t.length) = _
      split <;> split <;> omega
    rw [if_neg (Nat.not_lt.2 h), dif_pos h]
    simp only [Except.map, asChange, raw, ← hcursor]
    rfl
  · rw [if_pos (Nat.lt_of_not_le h), dif_neg h]
    rfl

theorem on_delete_raw (b : Buffer) (start stop : Nat) :
    (RawBuffer.delete start stop).on b.raw = b.asChange (b.delete start stop) := by
  rw [on_delete, Buffer.delete, raw_text]
  by_cases hstop : b.text.length < stop
  · rw [if_pos hstop, dif_pos hstop]
    rfl
  by_cases hstart : stop < start
  · rw [if_neg hstop, dif_neg hstop, if_pos hstart, dif_pos hstart]
    rfl
  · have hcursor : (b.raw.replaced start stop []).cursor =
        cursorAfterRemoval b.cursor start stop := by
      show (if b.cursor < start then b.cursor else max b.cursor stop - (stop - start) + 0) =
        if stop ≤ b.cursor then b.cursor - (stop - start) else min b.cursor start
      split <;> split <;> omega
    rw [if_neg hstop, dif_neg hstop, if_neg hstart, dif_neg hstart]
    simp only [asChange, raw, ← hcursor, replaced, List.append_nil]

theorem on_replace_raw (b : Buffer) (start stop : Nat) (t : Text) :
    (RawBuffer.replace start stop t).on b.raw = b.asChange (b.replace start stop t) := by
  have hdelete := on_delete_raw b start stop
  rw [RawBuffer.replace, Buffer.replace]
  cases hremoved : b.delete start stop with
  | error e =>
    rw [hremoved] at hdelete
    exact on_bind_of_error hdelete _
  | ok result =>
    rcases result with ⟨left, removed⟩
    rw [hremoved] at hdelete
    have hinsert := on_insert_raw left start t
    rw [on_bind_of_ok hdelete]
    cases hinserted : left.insert start t with
    | error e =>
      -- after the removal the insertion does not fail
      rw [hinserted, on_insert_of_delete hdelete] at hinsert
      cases hinsert
    | ok inserted =>
      rw [hinserted] at hinsert
      rw [on_bind_of_ok hinsert, on_pure]
      simp [bind, Except.bind, hinserted, asChange, pure, Except.pure]

theorem on_setCursor_raw (b : Buffer) (offset : Nat) :
    (RawBuffer.setCursor offset).on b.raw =
      b.asChange ((b.setCursor offset).map fun next => (next, ())) := by
  have hle := Text.indexOfByte_le offset b.text
  rw [on_setCursor, Buffer.setCursor, indexOfOffset, byteCount, raw_text]
  by_cases h : offset ≤ Text.byteLength b.text
  · rw [if_neg (Nat.not_lt.2 h), if_pos h]
    simp only [Except.map, asChange, raw, placeCursor, Nat.min_eq_left hle]
  · rw [if_pos (Nat.lt_of_not_le h), if_neg h]
    rfl

theorem on_setCursorPosition_raw (b : Buffer) (p : Position) :
    (RawBuffer.setCursorPosition p).on b.raw =
      b.asChange ((b.setCursorPosition p).map fun next => (next, ())) := by
  rw [on_setCursorPosition, Buffer.setCursorPosition, indexOfPosition, raw_text]
  cases h : Position.index? b.text p with
  | none => rfl
  | some index =>
    have hle := Position.index?_le h
    simp only [Except.map, asChange, raw, placeCursor, Nat.min_eq_left hle]

/-- An operation in place gives what the operation on the whole buffer gives. -/
theorem on_perform_raw (b : Buffer) (op : Operation) :
    (RawBuffer.perform op).on b.raw = b.asChange (b.attempt op) := by
  cases op with
  | insert index t => exact on_bind_pure (on_insert_raw b index t) []
  | delete start stop => exact on_delete_raw b start stop
  | replace start stop t => exact on_replace_raw b start stop t
  | setCursor offset => exact on_bind_pure (on_setCursor_raw b offset) []
  | setCursorPosition p => exact on_bind_pure (on_setCursorPosition_raw b p) []

/-- An operation fails on a whole buffer if it is refused in place. -/
theorem attempt_eq_error_iff {b : Buffer} {op : Operation} {e : BufferError} :
    b.attempt op = .error e ↔ b.raw.Refuses op e := by
  have hsame := on_perform_raw b op
  constructor
  · intro h
    rw [h] at hsame
    exact (on_perform_eq_error_iff.1 hsame).1
  · intro hrefuses
    rw [on_perform_eq_error_iff.2 ⟨hrefuses, rfl⟩] at hsame
    cases hattempt : b.attempt op with
    | error e' =>
      rw [hattempt] at hsame
      cases hsame
      rfl
    | ok result =>
      rw [hattempt] at hsame
      cases hsame

/-- A run in place leaves what the run on whole buffers gives. -/
theorem run_raw (b : Buffer) (ops : List Operation) : b.raw.run ops = (b.run ops).raw := by
  induction ops generalizing b with
  | nil => rfl
  | cons op rest ih =>
    have hstep : ((RawBuffer.perform op).on b.raw).2 = (b.perform op).raw := by
      rw [on_perform_raw, Buffer.perform]
      cases b.attempt op <;> rfl
    show RawBuffer.run ((RawBuffer.perform op).on b.raw).2 rest = ((b.perform op).run rest).raw
    rw [hstep, ih]

end Buffer

end ClassHighlight
