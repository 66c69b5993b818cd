import ClassHighlight.Paint.Terminal

/-!
# Rendering on a canvas

A text is rendered in two loops. The first paints the live decorations on a canvas with a place for
each byte, the most specific last, so that it replaces what is below it. The second writes the
characters one by one, and a sequence where the style of a character's first byte differs from the
one before. A canvas is painted only between bounds that are in order and on it, and a writer reads
only places that exist; otherwise there is no result.
-/

namespace ClassHighlight

/-- The style of each byte of a text. -/
abbrev Canvas := List (Option Style)

namespace Canvas

/-- Paints the places from `start` up to `stop`, if these are in order and on the canvas. -/
def fill? (canvas : Canvas) (start stop : Nat) (style : Style) : Option Canvas :=
  if start ≤ stop ∧ stop ≤ canvas.length then
    some (canvas.take start ++ List.replicate (stop - start) (some style) ++ canvas.drop stop)
  else
    none

/-- Paints a span, cut off where the canvas ends. -/
def paintSpan? (style : Style) (canvas : Canvas) (s : Span) : Option Canvas :=
  let stop := min s.stop canvas.length
  let start := min s.start stop
  canvas.fill? start stop style

/-- Paints the spans of a decoration. -/
def paintLayer? (canvas : Canvas) (d : Decoration) : Option Canvas :=
  d.spans.foldlM (paintSpan? d.style) canvas

/-- Paints decorations over each other. -/
def paint? (canvas : Canvas) (layers : List Decoration) : Option Canvas :=
  layers.foldlM paintLayer? canvas

end Canvas

/-- A text that is being written, and the style that its end is in. -/
structure Writer where
  /-- What was written. -/
  output : Text
  /-- The style that was started and not ended, if there is one. -/
  current : Option Style
deriving DecidableEq, Repr

namespace Writer

/-- What is written before a style. -/
def opening : Option Style → Text
  | none => []
  | some style => Terminal.startStyle style

/-- What is written after a style. -/
def closing : Option Style → Text
  | none => []
  | some _ => Terminal.endStyle

/-- Goes over to another style: ends the one before and starts the new one. -/
def switch (w : Writer) (style : Option Style) : Writer :=
  if style = w.current then w
  else ⟨w.output ++ closing w.current ++ opening style, style⟩

/-- Writes a character. -/
def push (w : Writer) (c : Char) : Writer :=
  { w with output := w.output ++ [c] }

/-- Writes the characters of a text, which has an offset on the canvas, in their styles. -/
def write? (canvas : Canvas) (offset : Nat) (w : Writer) : Text → Option Writer
  | [] => some w
  | c :: rest => do
    let style ← canvas[offset]?
    write? canvas (offset + c.utf8Size) ((w.switch style).push c) rest

/-- All that was written, with the style at its end ended. -/
def finish (w : Writer) : Text :=
  w.output ++ closing w.current

end Writer

namespace Terminal

/-- A text with all live decorations, painted on a canvas and then written. -/
def render? (t : Terminal) (text : Text) : Option Text := do
  let blank : Canvas := List.replicate (Text.byteLength text) none
  let canvas ← blank.paint? t.layers
  let w ← Writer.write? canvas 0 ⟨[], none⟩ text
  some w.finish

end Terminal

end ClassHighlight
