import ClassHighlight.Buffer.Basic
import ClassHighlight.InPlace

/-!
# Buffers that are changed in place

The operations on buffers as values, and as sequences of assignments to a text and a cursor that
nothing ties together. That such a cursor stays within the text, and that an operation that fails
assigns nothing, are facts about these sequences.
-/

namespace ClassHighlight

namespace Buffer

/-! ## Operations -/

/-- Something to be done with a buffer. -/
inductive Operation where
  /-- Inserts characters. -/
  | insert (index : Nat) (text : Text)
  /-- Removes the characters in a range. -/
  | delete (start stop : Nat)
  /-- Replaces the characters in a range. -/
  | replace (start stop : Nat) (text : Text)
  /-- Moves the cursor to an offset. -/
  | setCursor (offset : Nat)
  /-- Moves the cursor to a position. -/
  | setCursorPosition (p : Position)
deriving DecidableEq, Repr

/-- Tries an operation, and gives the characters that it removes. -/
def attempt (b : Buffer) : Operation → Except BufferError (Buffer × Text)
  | .insert index t => (b.insert index t).map fun next => (next, [])
  | .delete start stop => b.delete start stop
  | .replace start stop t => b.replace start stop t
  | .setCursor offset => (b.setCursor offset).map fun next => (next, [])
  | .setCursorPosition p => (b.setCursorPosition p).map fun next => (next, [])

/-- Performs an operation; if it fails, the buffer is as before. -/
def perform (b : Buffer) (op : Operation) : Buffer :=
  match b.attempt op with
  | .ok (next, _) => next
  | .error _ => b

/-- Performs operations one after the other. -/
def run (b : Buffer) (ops : List Operation) : Buffer := ops.foldl perform b

end Buffer

/-- A text with a cursor that may stand anywhere. -/
structure RawBuffer where
  /-- The text. -/
  text : Text
  /-- The number of characters before the cursor, if there are so many. -/
  cursor : Nat
  /-- Whether the text was edited since it was loaded. -/
  isModified : Bool
  /-- The file that the text was loaded from, if any. -/
  path? : Option Text
deriving DecidableEq, Repr

/-- A buffer without the promise that its cursor stands within the text. -/
def Buffer.raw (b : Buffer) : RawBuffer := ⟨b.text, b.cursor, b.isModified, b.path?⟩

@[simp] theorem Buffer.raw_text (b : Buffer) : b.raw.text = b.text := rfl

namespace RawBuffer

/-- A text that was just loaded. -/
def fresh (text : Text) (path? : Option Text) : RawBuffer := ⟨text, 0, false, path?⟩

/-- The buffer with the same cursor, or with one at the end of the text if that is passed. -/
def confine (b : RawBuffer) : Buffer :=
  ⟨b.text, min b.cursor b.text.length, b.isModified, b.path?, Nat.min_le_right _ _⟩

/-- The number of bytes before the cursor. -/
def cursorOffset (b : RawBuffer) : Nat := Text.byteLength (b.text.take b.cursor)

/-! ## Operations in place -/

/-- Something done to a buffer in place. -/
abbrev Change : Type → Type := InPlace RawBuffer BufferError

/-- Inserts characters, and then moves a cursor at the place or after it. -/
def insert (index : Nat) (t : Text) : Change Unit := do
  if (← get).text.length < index then
    throw (.charIndex index)
  modify fun b => { b with text := b.text.take index ++ t ++ b.text.drop index }
  if index ≤ (← get).cursor then
    modify fun b => { b with cursor := b.cursor + t.length }
  modify fun b => { b with isModified := true }

/-- Checks a range of character indices, its end first. -/
def checkRange (start stop : Nat) : Change Unit := do
  if (← get).text.length < stop then
    throw (.charIndex stop)
  if stop < start then
    throw (.charIndex start)

/-- Removes the characters in a range, then moves a cursor in or behind it, and gives the characters
back. -/
def delete (start stop : Nat) : Change Text := do
  checkRange start stop
  let removed := ((← get).text.take stop).drop start
  modify fun b => { b with text := b.text.take start ++ b.text.drop stop }
  if stop ≤ (← get).cursor then
    modify fun b => { b with cursor := b.cursor - (stop - start) }
  else if start < (← get).cursor then
    modify fun b => { b with cursor := start }
  modify fun b => { b with isModified := true }
  return removed

/-- Removes the characters in a range and then inserts others at its start. If they could not be
inserted, the characters would already be gone. -/
def replace (start stop : Nat) (t : Text) : Change Text := do
  let removed ← delete start stop
  insert start t
  return removed

/-- Moves the cursor to an offset, or to the start of the character around it. -/
def setCursor (offset : Nat) : Change Unit := do
  if Text.byteLength (← get).text < offset then
    throw (.byteOffset offset)
  modify fun b => { b with cursor := Text.indexOfByte offset b.text }

/-- Moves the cursor to a position. -/
def setCursorPosition (p : Position) : Change Unit := do
  match Position.index? (← get).text p with
  | some index => modify fun b => { b with cursor := index }
  | none => throw (.outOfBounds p)

/-- Performs an operation, and gives the characters that it removes. -/
def perform : Buffer.Operation → Change Text
  | .insert index t => do
    insert index t
    return []
  | .delete start stop => delete start stop
  | .replace start stop t => replace start stop t
  | .setCursor offset => do
    setCursor offset
    return []
  | .setCursorPosition p => do
    setCursorPosition p
    return []

/-- Performs operations one after the other, each on what the one before it leaves. -/
def run (b : RawBuffer) (ops : List Buffer.Operation) : RawBuffer :=
  ops.foldl (fun left op => ((perform op).on left).2) b

end RawBuffer

end ClassHighlight
