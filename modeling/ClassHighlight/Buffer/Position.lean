import ClassHighlight.Text.Blank
import ClassHighlight.Text.Decimal
import ClassHighlight.Text.Line

/-!
# Positions

A position is a line and a column, both counted from zero, the column in characters. People write
positions as `LINE:COL`, both counted from one.
-/

namespace ClassHighlight

/-- A line and a column of a text. -/
structure Position where
  /-- The number of lines before. -/
  line : Nat
  /-- The number of characters before on the line. -/
  column : Nat
deriving DecidableEq, Repr, Inhabited

namespace Position

/-- The start of a text. -/
def zero : Position := ⟨0, 0⟩

/-- Positions are ordered by line, then by column. -/
instance : Ord Position where
  compare a b := (compare a.line b.line).then (compare a.column b.column)

/-! ## Written positions -/

/-- The written form of a position, counted from one. -/
def render (p : Position) : Text :=
  Text.decimal (p.line + 1) ++ ':' :: Text.decimal (p.column + 1)

/-- Why a text is not a written position. -/
inductive ParseError where
  /-- The text is not two numbers from one up, with a colon between them. -/
  | invalid (text : Text)
deriving DecidableEq, Repr

/-- The message of an error. -/
def ParseError.message : ParseError → Text
  | .invalid t =>
    "Invalid position \"".toList ++ t ++
      "\": expected LINE:COL with both parts starting at 1".toList

/-- Reads a number of 64 bits that counts from one, and counts it from zero. -/
def readCounted? (t : Text) : Option Nat :=
  match Text.readNat64? t with
  | some (n + 1) => some n
  | _ => none

/-- Reads a written position with blanks around it. -/
def parse (t : Text) : Except ParseError Position :=
  let trimmed := t.trim
  match trimmed.dropWhile (· != ':') with
  | _ :: column =>
    match readCounted? (trimmed.takeWhile (· != ':')), readCounted? column with
    | some line, some column => .ok ⟨line, column⟩
    | _, _ => .error (.invalid t)
  | [] => .error (.invalid t)

/-! ## Positions and indices -/

/-- The position of the character with a given index among lines of which the first has number
`line`. -/
def locate (line : Nat) : List Text → Nat → Position
  | [], index => ⟨line, index⟩
  | [_], index => ⟨line, index⟩
  | first :: rest, index =>
    if index < first.length then ⟨line, index⟩ else locate (line + 1) rest (index - first.length)

/-- The position of the character with a given index. -/
def ofIndex (t : Text) (index : Nat) : Position :=
  locate 0 t.lines index

/-- The index of the character at a column of the line with a given number, if there is such a
line and the column is not past its end. -/
def indexIn? : List Text → (line column : Nat) → Option Nat
  | [], _, _ => none
  | first :: _, 0, column => if column ≤ Text.columns first then some column else none
  | first :: rest, line + 1, column => (indexIn? rest line column).map (first.length + ·)

/-- The index of the character at a position, if the text has that position. -/
def index? (t : Text) (p : Position) : Option Nat :=
  indexIn? t.lines p.line p.column

end Position

end ClassHighlight
