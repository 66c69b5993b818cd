import ClassHighlight.Source.Region

/-!
# Comment maps

The comments of a document, sorted and apart from each other, so that the comment around an offset
is found by halving.
-/

namespace ClassHighlight

/-- The comments of a document, in order. -/
structure CommentMap where
  /-- The extents of the comments. -/
  ranges : Array Span
deriving DecidableEq, Repr, Inhabited

namespace CommentMap

/-- The comments among the regions of a document. -/
def ofMarks (ms : List Mark) : CommentMap :=
  ⟨((Region.all ms).filterMap Region.commentSpan?).toArray⟩

/-- Among the ranges from `low` up to `high`, the index of the first that ends after an offset, or
`high` if none does; the ranges are taken to end in ascending order. -/
def firstEndingAfter (ranges : Array Span) (offset low high : Nat) : Nat :=
  if low < high then
    let middle := (low + high) / 2
    match ranges[middle]? with
    | some range =>
      if range.stop ≤ offset then firstEndingAfter ranges offset (middle + 1) high
      else firstEndingAfter ranges offset low middle
    | none => low
  else
    low
termination_by high - low

/-- The comment that covers an offset, if any. -/
def rangeAt? (comments : CommentMap) (offset : Nat) : Option Span :=
  let first := firstEndingAfter comments.ranges offset 0 comments.ranges.size
  comments.ranges[first]?.filter fun range => range.start ≤ offset

/-- Whether an offset lies in a comment. -/
def contains (comments : CommentMap) (offset : Nat) : Bool :=
  (comments.rangeAt? offset).isSome

end CommentMap

end ClassHighlight
