import ClassHighlight.Text.Basic

/-!
# Blanks

Two classes of blank are used. Class lists and typed-in values are separated and trimmed by the
Unicode property `White_Space`; around the punctuation of an attribute or a call only the five
blanks of markup count, and among these the vertical tab is missing.
-/

namespace ClassHighlight

/-- The ranges of code points with the Unicode property `White_Space`. -/
def blankRanges : List (Nat × Nat) :=
  [(0x9, 0xD), (0x20, 0x20), (0x85, 0x85), (0xA0, 0xA0), (0x1680, 0x1680), (0x2000, 0x200A),
   (0x2028, 0x2029), (0x202F, 0x202F), (0x205F, 0x205F), (0x3000, 0x3000)]

/-- Whether a character has the Unicode property `White_Space`. -/
def isBlank (c : Char) : Bool :=
  blankRanges.any fun (first, last) => first ≤ c.toNat && c.toNat ≤ last

/-- Whether a byte is a blank of markup: space, tab, line feed, form feed or carriage return. -/
def isMarkupBlank (b : UInt8) : Bool :=
  b == 0x20 || b == 0x09 || b == 0x0A || b == 0x0C || b == 0x0D

namespace Text

/-- A text without the blanks at its two ends. -/
def trim (t : Text) : Text :=
  ((t.dropWhile isBlank).reverse.dropWhile isBlank).reverse

end Text

end ClassHighlight
