import ClassHighlight.Buffer.InPlace

/-!
# Positions looked up in a text

Offsets and positions are turned into each other by look-ups: which character holds a byte and where
it starts, which line holds a character and where that line starts. A position is found from a line
and the distance to its start. The way back checks that there is such a line, and that the column
is not behind the line without its break.
-/

namespace ClassHighlight

namespace Text

/-- The number of the line that holds the character with a given index; behind the last character it
is the last line. -/
def lineAt : List Text → (index : Nat) → Nat
  | line :: next :: rest, index =>
    if index < line.length then 0 else lineAt (next :: rest) (index - line.length) + 1
  | _, _ => 0

/-- The number of characters before the line with a given number. -/
def lineStart (ls : List Text) (line : Nat) : Nat :=
  (ls.take line).flatten.length

/-- Whether the character before the one with a given index is the given one. -/
def hasBefore (t : Text) (index : Nat) (c : Char) : Bool :=
  0 < index && t[index - 1]? == some c

/-- The number of characters of a line without a final line feed, and without a carriage return in
front of that. -/
def lengthWithoutBreak (line : Text) : Nat :=
  if line.hasBefore line.length '\n' then
    if line.hasBefore (line.length - 1) '\r' then line.length - 2 else line.length - 1
  else
    line.length

end Text

namespace RawBuffer

/-- The line of the character with a given index, and how far the character is from its start. -/
def positionOfIndex (b : RawBuffer) (index : Nat) : Position :=
  let line := Text.lineAt b.text.lines index
  ⟨line, index - Text.lineStart b.text.lines line⟩

/-- The position of the cursor. -/
def cursorPosition (b : RawBuffer) : Position := b.positionOfIndex b.cursor

/-- The position of the character that holds the byte at an offset. -/
def positionOfOffset (b : RawBuffer) (offset : Nat) : Except BufferError Position :=
  if Text.byteLength b.text < offset then .error (.byteOffset offset)
  else .ok (b.positionOfIndex (Text.indexOfByte offset b.text))

/-- The index of the character at a position. -/
def indexOfPosition (b : RawBuffer) (p : Position) : Except BufferError Nat :=
  match b.text.lines[p.line]? with
  | none => .error (.outOfBounds p)
  | some line =>
    if Text.lengthWithoutBreak line < p.column then .error (.outOfBounds p)
    else .ok (Text.lineStart b.text.lines p.line + p.column)

/-- The offset of the character at a position. -/
def offsetOfPosition (b : RawBuffer) (p : Position) : Except BufferError Nat :=
  (b.indexOfPosition p).map fun index => Text.byteLength (b.text.take index)

end RawBuffer

end ClassHighlight
