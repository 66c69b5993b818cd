import ClassHighlight.Source.CommentMap
import ClassHighlight.Text.Blank

/-!
# Sources

A source is a document prepared for scanning: its text, the marks of its bytes and its comments.
-/

namespace ClassHighlight

/-- A document prepared for scanning. -/
structure Source where
  /-- The document. -/
  text : Text
  /-- The marks of its bytes. -/
  marks : List Mark
  /-- Its comments. -/
  comments : CommentMap

namespace Source

/-- Prepares a document. -/
def ofText (t : Text) : Source :=
  let marks := Mark.ofBytes (Text.bytes t)
  ⟨t, marks, CommentMap.ofMarks marks⟩

/-- The text that a span covers; a span whose bounds stand beside single-byte delimiters always
covers one. -/
def slice (source : Source) (s : Span) : Text :=
  (s.slice? source.text).getD []

end Source

/-- Whether a byte is an ASCII letter or digit. -/
def isAlphanumeric (b : UInt8) : Bool :=
  ('a'.toUInt8 ≤ b && b ≤ 'z'.toUInt8) || ('A'.toUInt8 ≤ b && b ≤ 'Z'.toUInt8) ||
    ('0'.toUInt8 ≤ b && b ≤ '9'.toUInt8)

/-- The marks after any blanks of markup. -/
def Mark.dropBlanks (ms : List Mark) : List Mark :=
  ms.dropWhile fun m => isMarkupBlank m.byte

end ClassHighlight
