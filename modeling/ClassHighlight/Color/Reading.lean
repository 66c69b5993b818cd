import ClassHighlight.Color.Basic

/-!
# Colors read by offsets

A written color can also be read by the offsets of its digits. The bytes behind the number sign are
checked first. Their number tells the form, and then each channel is cut out and read as a number of
its own, by a reader that takes a plus sign as well. A cut at an offset that is no character
boundary would fail, and so would a product that does not fit into a byte.
-/

namespace ClassHighlight

/-- Whether a byte is a hexadecimal digit. -/
def isHexByte (b : UInt8) : Bool :=
  (0x30 ≤ b && b ≤ 0x39) || (0x41 ≤ b && b ≤ 0x46) || (0x61 ≤ b && b ≤ 0x66)

/-- A number as a byte, if it fits into one. -/
def byteOfNat? (n : Nat) : Option UInt8 :=
  if n ≤ 0xFF then some n.toUInt8 else none

namespace Color

/-- A value or an error, or no result at all if something fails on the way. -/
abbrev Reading : Type → Type := ExceptT ParseError Option

namespace Reading

/-- The number between two offsets of the digits of a color. -/
def number (written digits : Text) (start stop : Nat) : Reading Nat := do
  let part ← digits.slice? start stop
  match part.readHexNumber? 0xFF with
  | some n => return n
  | none => throw (.invalid written)

/-- The channel with one digit, which stands for two of its kind. -/
def shortChannel (written digits : Text) (start : Nat) : Reading UInt8 := do
  let n ← number written digits start (start + 1)
  byteOfNat? (n * 0x11)

/-- The channel with two digits. -/
def longChannel (written digits : Text) (start : Nat) : Reading UInt8 := do
  let n ← number written digits start (start + 2)
  byteOfNat? n

/-- The color with given digits, by how many bytes they take. -/
def ofDigits (written digits : Text) : Reading Color := do
  match Text.byteLength digits with
  | 3 =>
    let r ← shortChannel written digits 0
    let g ← shortChannel written digits 1
    let b ← shortChannel written digits 2
    return ⟨r, g, b, 0xFF⟩
  | 6 =>
    let r ← longChannel written digits 0
    let g ← longChannel written digits 2
    let b ← longChannel written digits 4
    return ⟨r, g, b, 0xFF⟩
  | 8 =>
    let r ← longChannel written digits 0
    let g ← longChannel written digits 2
    let b ← longChannel written digits 4
    let a ← longChannel written digits 6
    return ⟨r, g, b, a⟩
  | _ => throw (.invalid written)

/-- The color that a text without blanks around it stands for. -/
def ofWritten (written : Text) : Reading Color :=
  match written with
  | [] => throw .empty
  | '#' :: digits =>
    if (Text.bytes digits).all isHexByte then ofDigits written digits else throw (.invalid written)
  | _ :: _ => throw (.invalid written)

end Reading

/-- Reads a written color with blanks around it, by the offsets of its digits. -/
def read? (t : Text) : Option (Except ParseError Color) :=
  (Reading.ofWritten t.trim).run

end Color

end ClassHighlight
