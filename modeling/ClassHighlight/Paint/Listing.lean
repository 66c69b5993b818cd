import ClassHighlight.Highlight
import ClassHighlight.Text.Quoted

/-!
# Listings of highlights

One line for each span: the category, the bounds, and the text that it covers in quotation marks.
-/

namespace ClassHighlight

namespace Highlights

/-- The line for a span; nothing is quoted if the span does not fit the text. -/
def listSpan (text : Text) (c : Category) (s : Span) : Text :=
  c.name ++ ' ' :: s.render ++ ' ' :: Text.quoted ((s.slice? text).getD []) ++ ['\n']

/-- The lines for all spans, by category. -/
def list (text : Text) (h : Highlights) : Text :=
  Category.all.flatMap fun c => (h.get c).flatMap (listSpan text c)

end Highlights

end ClassHighlight
