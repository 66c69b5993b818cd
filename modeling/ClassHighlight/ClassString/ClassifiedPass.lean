import ClassHighlight.ClassString.Classified

/-!
# Tokens classified in one pass

The parts of a token can also be found by going over its bytes once. The pass keeps the depth of the
brackets, the open quote and where the outermost bracket opened, next to the parts found so far.
Whether a byte is escaped is told by a look back over the token alone, and an escaped byte is passed
over unless a quote is open.
-/

namespace ClassHighlight

namespace Classified

/-- Where a pass over the bytes of a token stands. -/
structure Pass where
  /-- The number of open brackets. -/
  depth : Nat
  /-- The quote that is open within the brackets, if any. -/
  quote : QuoteState
  /-- Where the outermost bracket opened last. -/
  opened : Nat
  /-- The offset after the last colon that ends a variant, or zero. -/
  variantLength : Nat
  /-- The arbitrary values that are closed. -/
  arbitrary : List Span
deriving DecidableEq, Repr

namespace Pass

/-- A pass before the first byte. -/
def initial : Pass := ⟨0, none, 0, 0, []⟩

/-- Reads an opening bracket at an index. -/
def readOpening (p : Pass) (i : Nat) : Pass :=
  { p with opened := if p.depth = 0 then i else p.opened, depth := p.depth + 1 }

/-- Reads a closing bracket at an index, within brackets. -/
def readClosing (p : Pass) (i : Nat) : Pass :=
  let closed := { p with depth := p.depth - 1 }
  if closed.depth = 0 then
    { closed with arbitrary := p.arbitrary ++ [.ofBounds p.opened (i + 1)] }
  else closed

/-- Reads a byte that is neither escaped nor in a quote. -/
def readFree (p : Pass) (i : Nat) (b : UInt8) : Pass :=
  if b == '['.toUInt8 then p.readOpening i
  else if b == ']'.toUInt8 && 0 < p.depth then p.readClosing i
  else if b == ':'.toUInt8 && p.depth == 0 then { p with variantLength := i + 1 }
  else if 0 < p.depth then { p with quote := Quote.ofByte? b }
  else p

/-- Reads the byte at an index. -/
def read (bytes : List UInt8) (p : Pass) (i : Nat) (b : UInt8) : Pass :=
  match p.quote with
  | some q => if b == q.byte && !isEscaped bytes i then { p with quote := none } else p
  | none => if isEscaped bytes i then p else p.readFree i b

/-- Reads bytes from an index on. -/
def readFrom (bytes : List UInt8) (p : Pass) (i : Nat) : List UInt8 → Pass
  | [] => p
  | b :: rest => readFrom bytes (p.read bytes i b) (i + 1) rest

/-- Finds the parts of a token. -/
def classify (token : Token) : Classified :=
  let bytes := Text.bytes token.text
  let p := readFrom bytes initial 0 bytes
  { token
    variantLength := p.variantLength
    isImportant := bytes[p.variantLength]? == some '!'.toUInt8
    arbitrary := p.arbitrary }

end Pass

end Classified

end ClassHighlight
