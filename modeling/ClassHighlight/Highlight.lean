import ClassHighlight.ClassString.Classified
import ClassHighlight.ClassString.Template
import ClassHighlight.Source.Selection

/-!
# Highlights

The spans of a document that are to be painted, by category. They are found candidate by
candidate and token by token, in the order of the document.
-/

namespace ClassHighlight

/-- The spans to paint, as offsets into a document. -/
abbrev Highlights := ByCategory (List Span)

namespace Highlights

/-- No spans at all. -/
def empty : Highlights := ⟨[], [], [], []⟩

/-- Those of several parts of a document, one after the other. -/
def concat (parts : List Highlights) : Highlights :=
  .ofFn fun c => parts.flatMap fun part => part.get c

/-- Those of one part followed by those of another. -/
def append (a b : Highlights) : Highlights :=
  .ofFn fun c => a.get c ++ b.get c

/-- The number of spans in each category. -/
def counts (h : Highlights) : ByCategory Nat :=
  h.map List.length

/-- Whether there are no spans. -/
def isEmpty (h : Highlights) : Bool :=
  Category.all.all fun c => (h.get c).isEmpty

/-- The highlights of a token in a class list that starts at `base`. -/
def ofToken (base : Nat) (t : Token) : Highlights :=
  (Classified.ofToken t).spans.map fun spans => spans.map fun s => s.shift (base + t.start)

/-- The highlights of a class list that starts at `base`. -/
def ofClassString (base : Nat) (t : Text) : Highlights :=
  concat ((Token.split t).map (ofToken base))

/-- The highlights of a candidate; in a template literal only the static runs count. -/
def ofCandidate (c : Candidate) : Highlights :=
  if c.isTemplate then
    concat ((StaticRun.all c.text).map fun run => ofClassString (c.base + run.offset) run.text)
  else
    ofClassString c.base c.text

end Highlights

/-- The highlights of a document in a mode. The cursor is a byte offset. -/
def scan (t : Text) (cursor? : Option Nat) (mode : Mode) : Highlights :=
  Highlights.concat (((Source.ofText t).selected mode cursor?).map Highlights.ofCandidate)

end ClassHighlight
