import ClassHighlight.Paint.Call

/-!
# Painting in a terminal

A terminal collects decorations and shows a text with them in escape sequences. Where decorations
overlap, the most specific category is shown, and among equals the one created last.
-/

namespace ClassHighlight

/-- Spans to be drawn in one style. -/
structure Decoration where
  /-- What the spans stand for. -/
  category : Category
  /-- How they are drawn. -/
  style : Style
  /-- The spans. -/
  spans : List Span
deriving DecidableEq, Repr

namespace Decoration

/-- Whether the byte at an offset is painted. -/
def covers (d : Decoration) (offset : Nat) : Bool :=
  d.spans.any fun s => s.contains offset

end Decoration

/-- The decorations of a terminal by their handles; those that were disposed left their places
empty. -/
structure Terminal where
  /-- The decorations, in the order of their creation. -/
  slots : List (Option Decoration)
deriving DecidableEq, Repr

namespace Terminal

/-- A terminal without decorations. -/
def empty : Terminal := ⟨[]⟩

/-- The decorations that were not disposed. -/
def live (t : Terminal) : List Decoration := t.slots.filterMap id

/-- Creates a decoration that paints nothing yet, and gives its handle. -/
def create (t : Terminal) (category : Category) (style : Style) : Terminal × Nat :=
  (⟨t.slots ++ [some ⟨category, style, []⟩]⟩, t.slots.length)

/-- Replaces the spans of a decoration; nothing happens if there is none with that handle. -/
def set (t : Terminal) (handle : Nat) (spans : List Span) : Terminal :=
  ⟨t.slots.modify handle fun slot => slot.map fun d => { d with spans }⟩

/-- Removes a decoration; nothing happens if there is none with that handle. -/
def dispose (t : Terminal) (handle : Nat) : Terminal :=
  ⟨t.slots.set handle none⟩

/-- Does what a paint call asks for. -/
def perform (t : Terminal) : PaintCall → Terminal
  | .create _ category style => (t.create category style).1
  | .set handle spans => t.set handle spans
  | .dispose handle => t.dispose handle

/-- Does what paint calls ask for, one after the other. -/
def performAll (t : Terminal) (calls : List PaintCall) : Terminal :=
  calls.foldl perform t

/-! ## Rendering -/

/-- How specific a category is. -/
def specificity : Category → Nat
  | .utility => 0
  | .arbitrary => 1
  | .variant => 2
  | .important => 3

/-- The live decorations, the most specific last. -/
def layers (t : Terminal) : List Decoration :=
  t.live.mergeSort fun a b => specificity a.category ≤ specificity b.category

/-- The style that the last of some layers gives to the byte at an offset. -/
def styleAt (layers : List Decoration) (offset : Nat) : Option Style :=
  (layers.filter fun d => d.covers offset).getLast?.map Decoration.style

/-- The characters of a text from an offset on, each with the style of its first byte. -/
def styled (layers : List Decoration) (offset : Nat) : Text → List (Option Style × Char)
  | [] => []
  | c :: rest => (styleAt layers offset, c) :: styled layers (offset + c.utf8Size) rest

/-- Puts a character in front of a list of runs, into the first run if that has its style. -/
def consToRun (style : Option Style) (c : Char) :
    List (Option Style × Text) → List (Option Style × Text)
  | [] => [(style, [c])]
  | (first, run) :: rest =>
    if first = style then (style, c :: run) :: rest else (style, [c]) :: (first, run) :: rest

/-- The longest runs of characters of one style. -/
def runs : List (Option Style × Char) → List (Option Style × Text)
  | [] => []
  | (style, c) :: rest => consToRun style c (runs rest)

/-- The escape sequence with the given codes. -/
def escapeSequence (codes : List Text) : Text :=
  '\x1b' :: '[' :: [';'].intercalate codes ++ ['m']

/-- The escape sequence that starts a style. -/
def startStyle (s : Style) : Text :=
  let channels := [s.color.r, s.color.g, s.color.b].map fun b => Text.decimal b.toNat
  escapeSequence
    ((if s.isBold then [['1']] else []) ++ (if s.isItalic then [['3']] else []) ++
      ["38".toList, ['2']] ++ channels)

/-- The escape sequence that ends all styles. -/
def endStyle : Text := escapeSequence [['0']]

/-- A run as it is shown. -/
def showRun : Option Style × Text → Text
  | (none, run) => run
  | (some style, run) => startStyle style ++ run ++ endStyle

/-- A text with all live decorations. -/
def render (t : Terminal) (text : Text) : Text :=
  (runs (styled t.layers 0 text)).flatMap showRun

end Terminal

end ClassHighlight
