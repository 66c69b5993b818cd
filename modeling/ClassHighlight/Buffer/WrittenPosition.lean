import ClassHighlight.Buffer.Position
import ClassHighlight.Nat64

/-!
# Positions written and read within 64 bits

Lines and columns are numbers of 64 bits, counted from zero, and they are written counted from one.
So one is added to each before it is written, and the sum may be too large. One is taken off each
after it was read, and this fails for a zero. Reading checks for zeros before that.
-/

namespace ClassHighlight

/-- The part of a text in front of the first place where a character stands, and the part behind
it. -/
def Text.splitOnce? (d : Char) : Text → Option (Text × Text)
  | [] => none
  | c :: rest =>
    if c == d then some ([], rest)
    else (splitOnce? d rest).map fun (front, behind) => (c :: front, behind)

namespace Position

/-- Writes a position, if its numbers can be counted from one within 64 bits. -/
def write? (p : Position) : Option Text := do
  let line ← Nat64.add? p.line 1
  let column ← Nat64.add? p.column 1
  return Text.decimal line ++ ':' :: Text.decimal column

/-- A value or an error, or no result at all if a difference fails on the way. -/
abbrev Reading : Type → Type := ExceptT ParseError Option

namespace Reading

/-- The number that a part of a written position stands for. -/
def number (written part : Text) : Reading Nat :=
  match Nat64.read? part with
  | some n => return n
  | none => throw (.invalid written)

/-- The position with given numerals of its line and its column. -/
def ofParts (written line column : Text) : Reading Position := do
  let line ← number written line
  let column ← number written column
  if line = 0 ∨ column = 0 then
    throw (.invalid written)
  let line ← Nat64.sub? line 1
  let column ← Nat64.sub? column 1
  return ⟨line, column⟩

/-- The position that a text stands for. -/
def ofWritten (written : Text) : Reading Position :=
  match written.trim.splitOnce? ':' with
  | some (line, column) => ofParts written line column
  | none => throw (.invalid written)

end Reading

/-- Reads a written position with blanks around it, within 64 bits. -/
def read? (t : Text) : Option (Except ParseError Position) :=
  (Reading.ofWritten t).run

end Position

end ClassHighlight
