import ClassHighlight.Span
import ClassHighlight.Style

/-!
# Paint calls

What a host that paints spans is asked to do. A decoration is known by its handle; handles are
numbered from zero in the order of their creation, and a number is never given twice.
-/

namespace ClassHighlight

/-- A request to a host that paints. -/
inductive PaintCall where
  /-- Creates a decoration that paints nothing yet. -/
  | create (handle : Nat) (category : Category) (style : Style)
  /-- Replaces all spans that a decoration paints. -/
  | set (handle : Nat) (spans : List Span)
  /-- Removes a decoration with all it paints. -/
  | dispose (handle : Nat)
deriving DecidableEq, Repr

end ClassHighlight
