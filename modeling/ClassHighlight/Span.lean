import ClassHighlight.Text.Decimal

/-!
# Spans

A span is a half-open range of byte offsets into a text. Spans read from outside may have their
bounds in any order or point past the text; `Span.ofBounds` orders the bounds, and `Span.slice?`
gives a text only for a span that fits.
-/

namespace ClassHighlight

/-- The byte offsets from `start` up to, but not including, `stop`. -/
structure Span where
  /-- The first offset covered. -/
  start : Nat
  /-- The offset after the last one covered. -/
  stop : Nat
deriving DecidableEq, Repr, Inhabited

namespace Span

/-- The span between two offsets; a `stop` before `start` is raised to it. -/
def ofBounds (start stop : Nat) : Span :=
  ⟨start, max start stop⟩

/-- The number of bytes covered. -/
def length (s : Span) : Nat := s.stop - s.start

/-- Whether the two bounds are equal. -/
def isEmpty (s : Span) : Bool := s.start == s.stop

/-- Whether an offset is covered. -/
def contains (s : Span) (offset : Nat) : Bool :=
  s.start ≤ offset && offset < s.stop

/-- Whether an offset is covered or is the end of the span. -/
def encloses (s : Span) (offset : Nat) : Bool :=
  s.start ≤ offset && offset ≤ s.stop

/-- The span moved right by `base` bytes. -/
def shift (s : Span) (base : Nat) : Span :=
  ⟨s.start + base, s.stop + base⟩

/-- Spans are ordered by their start, then by their end. -/
instance : Ord Span where
  compare a b := (compare a.start b.start).then (compare a.stop b.stop)

/-- The text that a span covers, if it lies within the text and on character boundaries. -/
def slice? (s : Span) (t : Text) : Option Text :=
  Text.slice? t s.start s.stop

/-- The written form of a span, `start..stop`. -/
def render (s : Span) : Text :=
  Text.decimal s.start ++ ['.', '.'] ++ Text.decimal s.stop

theorem contains_iff {s : Span} {offset : Nat} :
    s.contains offset ↔ s.start ≤ offset ∧ offset < s.stop := by
  simp [contains]

theorem encloses_iff {s : Span} {offset : Nat} :
    s.encloses offset ↔ s.start ≤ offset ∧ offset ≤ s.stop := by
  simp [encloses]

end Span

end ClassHighlight
