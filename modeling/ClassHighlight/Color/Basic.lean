import ClassHighlight.Category
import ClassHighlight.Text.Blank
import ClassHighlight.Text.Hexadecimal

/-!
# Colors

A color has three channels and an alpha value, a byte each. It is written as `#RRGGBB`, and with
the alpha value as well if it is not solid; the short form `#rgb` is read too.
-/

namespace ClassHighlight

/-- A color with an alpha value. -/
structure Color where
  /-- Red. -/
  r : UInt8
  /-- Green. -/
  g : UInt8
  /-- Blue. -/
  b : UInt8
  /-- Alpha; the largest value is solid. -/
  a : UInt8
deriving DecidableEq, Repr, Inhabited

/-- One color for each category. -/
abbrev Palette := ByCategory Color

namespace Color

/-- A solid color from a number whose low three bytes are its channels. -/
def ofNat (n : Nat) : Color :=
  ⟨(n / 0x10000).toUInt8, (n / 0x100).toUInt8, n.toUInt8, 0xFF⟩

/-- Whether nothing shines through. -/
def isSolid (c : Color) : Bool := c.a == 0xFF

/-! ## Written colors -/

/-- The written form of a color. -/
def render (c : Color) : Text :=
  '#' :: Text.hexByte c.r ++ Text.hexByte c.g ++ Text.hexByte c.b ++
    if c.isSolid then [] else Text.hexByte c.a

/-- Why a text is not a written color. -/
inductive ParseError where
  /-- There is nothing but blanks. -/
  | empty
  /-- The text, without blanks around it, is none of the written forms. -/
  | invalid (text : Text)
deriving DecidableEq, Repr

/-- The message of an error. -/
def ParseError.message : ParseError → Text
  | .empty => "Color is empty".toList
  | .invalid t =>
    "Invalid color \"".toList ++ t ++ "\": expected #rgb, #rrggbb or #rrggbbaa".toList

/-- The byte with two given hexadecimal digits. -/
def byteOfDigits (high low : Nat) : UInt8 := (16 * high + low).toUInt8

/-- The color with the given hexadecimal digits: one or two for each channel, and two more for an
alpha value after the long form. -/
def ofDigits? : List Nat → Option Color
  | [r, g, b] => some ⟨byteOfDigits r r, byteOfDigits g g, byteOfDigits b b, 0xFF⟩
  | [r, r', g, g', b, b'] =>
    some ⟨byteOfDigits r r', byteOfDigits g g', byteOfDigits b b', 0xFF⟩
  | [r, r', g, g', b, b', a, a'] =>
    some ⟨byteOfDigits r r', byteOfDigits g g', byteOfDigits b b', byteOfDigits a a'⟩
  | _ => none

/-- Reads a written color with blanks around it. -/
def parse (t : Text) : Except ParseError Color :=
  match t.trim with
  | [] => .error .empty
  | c :: digits =>
    match if c == '#' then (digits.mapM Text.hexValue?).bind ofDigits? else none with
    | some color => .ok color
    | none => .error (.invalid (c :: digits))

end Color

end ClassHighlight
