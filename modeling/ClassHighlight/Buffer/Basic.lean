import ClassHighlight.Buffer.Position

/-!
# Buffers

A buffer is a text that is edited, with one cursor. Edits count characters; offsets for scanners
count bytes. The cursor is kept as a number of characters, so it never stands inside one.
-/

namespace ClassHighlight

/-- A text that is edited, with one cursor. -/
structure Buffer where
  /-- The text. -/
  text : Text
  /-- The number of characters before the cursor. -/
  cursor : Nat
  /-- Whether the text was edited since it was loaded. -/
  isModified : Bool
  /-- The file that the text was loaded from, if any. -/
  path? : Option Text
  /-- The cursor stands within the text. -/
  cursor_le : cursor ≤ text.length
deriving DecidableEq, Repr

/-- Why an operation on a buffer fails. -/
inductive BufferError where
  /-- The text has no such position. -/
  | outOfBounds (p : Position)
  /-- The text has fewer bytes. -/
  | byteOffset (offset : Nat)
  /-- The text has fewer characters, or a range ends before it starts. -/
  | charIndex (index : Nat)
  /-- The file is missing or does not hold UTF-8 text. -/
  | unreadable
deriving DecidableEq, Repr

/-- The message of an error. -/
def BufferError.message : BufferError → Text
  | .outOfBounds p =>
    "Position ".toList ++ Text.decimal p.line ++ ':' :: Text.decimal p.column ++
      " is out of bounds".toList
  | .byteOffset offset => "Invalid byte offset: ".toList ++ Text.decimal offset
  | .charIndex index => "Invalid character index: ".toList ++ Text.decimal index
  | .unreadable => "The file cannot be read as text".toList

namespace Buffer

/-- A buffer with the given text and the cursor at its start. -/
def ofText (t : Text) : Buffer :=
  ⟨t, 0, false, none, Nat.zero_le _⟩

/-- A buffer loaded from a file, of which the content is given unless it is missing. -/
def ofFile (path : Text) (content? : Option ByteArray) : Except BufferError Buffer :=
  match content?.bind Text.ofBytes? with
  | some t => .ok { ofText t with path? := some path }
  | none => .error .unreadable

/-! ## Measures -/

/-- The number of characters. -/
def charCount (b : Buffer) : Nat := b.text.length

/-- The number of bytes. -/
def byteCount (b : Buffer) : Nat := Text.byteLength b.text

/-- The number of lines; an empty text has one. -/
def lineCount (b : Buffer) : Nat := b.text.lines.length

/-! ## Edits -/

/-- Inserts characters. A cursor at the place or after it moves along. -/
def insert (b : Buffer) (index : Nat) (t : Text) : Except BufferError Buffer :=
  if h : index ≤ b.text.length then
    .ok
      { text := b.text.take index ++ t ++ b.text.drop index
        cursor := if index ≤ b.cursor then b.cursor + t.length else b.cursor
        isModified := true
        path? := b.path?
        cursor_le := by
          have := b.cursor_le
          simp only [List.length_append, List.length_take, List.length_drop]
          split <;> omega }
  else
    .error (.charIndex index)

/-- Checks a range of character indices, its end first. -/
def checkRange (b : Buffer) (start stop : Nat) : Except BufferError Unit :=
  if b.text.length < stop then .error (.charIndex stop)
  else if stop < start then .error (.charIndex start)
  else .ok ()

/-- The characters in a range. -/
def slice (b : Buffer) (start stop : Nat) : Except BufferError Text :=
  (b.checkRange start stop).map fun _ => (b.text.take stop).drop start

/-- Where a cursor goes when a range of characters is removed. -/
def cursorAfterRemoval (cursor start stop : Nat) : Nat :=
  if stop ≤ cursor then cursor - (stop - start) else min cursor start

/-- Removes the characters in a range and gives them back. -/
def delete (b : Buffer) (start stop : Nat) : Except BufferError (Buffer × Text) :=
  if hstop : b.text.length < stop then .error (.charIndex stop)
  else if hstart : stop < start then .error (.charIndex start)
  else
    .ok
      ({ text := b.text.take start ++ b.text.drop stop
         cursor := cursorAfterRemoval b.cursor start stop
         isModified := true
         path? := b.path?
         cursor_le := by
          have := b.cursor_le
          simp only [cursorAfterRemoval, List.length_append, List.length_take, List.length_drop]
          split <;> omega },
        (b.text.take stop).drop start)

/-- Removes the characters in a range, inserts others in their place, and gives the removed ones
back. -/
def replace (b : Buffer) (start stop : Nat) (t : Text) : Except BufferError (Buffer × Text) := do
  let (removed, old) ← b.delete start stop
  let inserted ← removed.insert start t
  return (inserted, old)

/-! ## The cursor -/

/-- The number of bytes before the character with a given index. -/
def offsetOfIndex (b : Buffer) (index : Nat) : Nat :=
  Text.byteLength (b.text.take index)

/-- The number of bytes before the cursor. -/
def cursorOffset (b : Buffer) : Nat := b.offsetOfIndex b.cursor

/-- The position of the cursor. -/
def cursorPosition (b : Buffer) : Position := Position.ofIndex b.text b.cursor

/-- The index of the character that holds the byte at an offset; the offset may be at the end. -/
def indexOfOffset (b : Buffer) (offset : Nat) : Except BufferError Nat :=
  if offset ≤ b.byteCount then .ok (Text.indexOfByte offset b.text)
  else .error (.byteOffset offset)

/-- The index of the character at a position. -/
def indexOfPosition (b : Buffer) (p : Position) : Except BufferError Nat :=
  match Position.index? b.text p with
  | some index => .ok index
  | none => .error (.outOfBounds p)

/-- The offset of a position. -/
def offsetOfPosition (b : Buffer) (p : Position) : Except BufferError Nat :=
  (b.indexOfPosition p).map b.offsetOfIndex

/-- The position of the character that holds the byte at an offset. -/
def positionOfOffset (b : Buffer) (offset : Nat) : Except BufferError Position :=
  (b.indexOfOffset offset).map (Position.ofIndex b.text)

/-- Places the cursor before the character with a given index, or at the end. -/
def placeCursor (b : Buffer) (index : Nat) : Buffer :=
  { b with cursor := min index b.text.length, cursor_le := Nat.min_le_right _ _ }

/-- Moves the cursor to an offset, or to the start of the character around it. -/
def setCursor (b : Buffer) (offset : Nat) : Except BufferError Buffer :=
  (b.indexOfOffset offset).map b.placeCursor

/-- Moves the cursor to a position. -/
def setCursorPosition (b : Buffer) (p : Position) : Except BufferError Buffer :=
  (b.indexOfPosition p).map b.placeCursor

end Buffer

end ClassHighlight
