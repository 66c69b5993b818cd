import ClassHighlight.Color.Basic

/-!
# Styles

How the spans of a category are drawn.
-/

namespace ClassHighlight

/-- How spans are drawn. -/
structure Style where
  /-- The color of the characters. -/
  color : Color
  /-- Whether they are slanted. -/
  isItalic : Bool
  /-- Their weight, from 1 to 1000, unless it is left as it is. -/
  weight : Option Nat
deriving DecidableEq, Repr

namespace Style

/-- The least weight that is drawn bold. -/
def boldWeight : Nat := 600

/-- Whether characters of a weight are drawn bold. -/
def isBoldWeight (weight : Option Nat) : Bool :=
  weight.any fun w => boldWeight ≤ w

/-- Whether characters are drawn bold. -/
def isBold (s : Style) : Bool := isBoldWeight s.weight

/-- The style of a category: variants are slanted, important marks bold, and utilities of medium
weight. -/
def ofCategory (palette : Palette) (c : Category) : Style :=
  match c with
  | .variant => ⟨palette.variant, true, none⟩
  | .important => ⟨palette.important, false, some boldWeight⟩
  | .arbitrary => ⟨palette.arbitrary, false, none⟩
  | .utility => ⟨palette.utility, false, some 500⟩

end Style

end ClassHighlight
