import ClassHighlight.ClassString.Template

/-!
# Template literals read with two cursors

The static runs of a template literal can also be found by going over its body round by round. One
cursor stays where the fixed text started, the other one goes from one opening delimiter to the
next. An escaped delimiter only moves the second cursor on; any other one ends the fixed text, and
both cursors go behind the interpolation. Texts are cut between the cursors, and a cut at an offset
that is no character boundary would fail.
-/

namespace ClassHighlight

/-- The offset of the first place of a text where a pattern stands. -/
def Text.find? : (t pattern : Text) → Option Nat
  | [], pattern => if pattern.isEmpty then some 0 else none
  | c :: rest, pattern =>
    if pattern.isPrefixOf (c :: rest) then some 0
    else (find? rest pattern).map fun distance => c.utf8Size + distance

namespace StaticRun

/-- Where a search for static runs stands. -/
structure Search where
  /-- Where the fixed text started. -/
  start : Nat
  /-- Where the search for the next delimiter goes on. -/
  position : Nat
  /-- The runs before the fixed text. -/
  runs : List StaticRun
deriving DecidableEq, Repr

/-- What a round of the search comes to. -/
inductive Round where
  /-- There may be more runs. -/
  | continues (next : Search)
  /-- These are all runs. -/
  | ends (runs : List StaticRun)
deriving DecidableEq, Repr

namespace Search

/-- The search before its first round. -/
def initial : Search := ⟨0, 0, []⟩

/-- The runs with the text between two offsets as another one, unless nothing is left of it when it
is trimmed. -/
def pushRun? (body : Text) (start stop : Nat) (runs : List StaticRun) : Option (List StaticRun) :=
  (body.slice? start stop).map fun t => if t.trim.isEmpty then runs else runs ++ [⟨t, start⟩]

/-- The rest of a body, with its last fixed text from an offset on. -/
def finish? (body : Text) (start : Nat) (runs : List StaticRun) : Option Round :=
  (pushRun? body start (Text.byteLength body) runs).map .ends

/-- Goes behind an interpolation whose opening delimiter stands at an offset. -/
def skip? (body : Text) (s : Search) (opening : Nat) : Option Round :=
  (pushRun? body s.start opening s.runs).bind fun runs =>
    (body.slice? (opening + 2) (Text.byteLength body)).bind fun inner =>
      match inner.find? ['}'] with
      | some distance =>
        some (.continues ⟨opening + 2 + distance + 1, opening + 2 + distance + 1, runs⟩)
      | none => finish? body (Text.byteLength body) runs

/-- One round of the search, or `none` if a text cannot be cut. -/
def round? (body : Text) (s : Search) : Option Round :=
  (body.slice? s.position (Text.byteLength body)).bind fun rest =>
    match rest.find? TemplatePiece.opener with
    | some distance =>
      if isEscaped (Text.bytes body) (s.position + distance) then
        some (.continues { s with position := s.position + distance + 2 })
      else
        skip? body s (s.position + distance)
    | none => finish? body s.start s.runs

/-- The runs found within a number of rounds, or `none` if these do not suffice or one fails. -/
def runFor? (body : Text) : Nat → Search → Option (List StaticRun)
  | 0, _ => none
  | n + 1, s =>
    (round? body s).bind fun
      | .continues next => runFor? body n next
      | .ends runs => some runs

end Search

end StaticRun

end ClassHighlight
