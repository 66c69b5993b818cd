import ClassHighlight.ClassString.Token
import ClassHighlight.Source.Quote

/-!
# Class lists split in one pass

The tokens of a class list can also be found by going over its characters once. The pass keeps the
depth of the brackets, the open quote and where the token at hand started; it never starts afresh.
Whether a character is escaped is told by a look back over the whole list. A token is cut out of the
list where it ends, and a cut at an offset that is no character boundary would fail.
-/

namespace ClassHighlight

/-- The quote that a character delimits, told by its byte if it fits into one. -/
def Quote.ofNarrowChar? (c : Char) : Option Quote :=
  if c.toNat < 0x100 then ofByte? c.toUInt8 else none

namespace Token

/-- Where a pass over a class list stands. -/
structure Pass where
  /-- The tokens that have ended. -/
  tokens : List Token
  /-- The number of open brackets. -/
  depth : Nat
  /-- The quote that is open within the brackets, if any. -/
  quote : QuoteState
  /-- Where the token at hand started, if there is one. -/
  start? : Option Nat
deriving DecidableEq, Repr

namespace Pass

/-- A pass before the first character. -/
def initial : Pass := ⟨[], 0, none, none⟩

/-- Cuts the token at hand, if there is one, out of the list. -/
def cut? (list : Text) (p : Pass) (stop : Nat) : Option Pass :=
  match p.start? with
  | some start =>
    (list.slice? start stop).map fun t =>
      { p with tokens := p.tokens ++ [⟨t, start⟩], start? := none }
  | none => some p

/-- Reads a character within a quote. -/
def readQuoted (p : Pass) (q : Quote) (escaped : Bool) (c : Char) : Pass :=
  if c == q.char && !escaped then { p with quote := none } else p

/-- Reads a character within brackets. -/
def readInside (p : Pass) (escaped : Bool) (c : Char) : Pass :=
  if c == '[' && !escaped then { p with depth := p.depth + 1 }
  else if c == ']' && !escaped then { p with depth := p.depth - 1 }
  else if !escaped then { p with quote := Quote.ofNarrowChar? c }
  else p

/-- Reads a character that is no blank outside brackets. -/
def readWord (p : Pass) (escaped : Bool) (offset : Nat) (c : Char) : Pass :=
  let started := { p with start? := p.start?.or (some offset) }
  if c == '[' && !escaped then { started with depth := 1 } else started

/-- Reads the character at an offset of a list. -/
def read? (list : Text) (p : Pass) (offset : Nat) (c : Char) : Option Pass :=
  let escaped := isEscaped (Text.bytes list) offset
  match p.quote with
  | some q => some (p.readQuoted q escaped c)
  | none =>
    if 0 < p.depth then some (p.readInside escaped c)
    else if isBlank c then p.cut? list offset
    else some (p.readWord escaped offset c)

/-- Reads the characters of a list from an offset on. -/
def readFrom? (list : Text) (p : Pass) (offset : Nat) : Text → Option Pass
  | [] => some p
  | c :: rest => (p.read? list offset c).bind fun next =>
    readFrom? list next (offset + c.utf8Size) rest

/-- The tokens of a class list, or `none` if a cut fails. -/
def split? (list : Text) : Option (List Token) :=
  (readFrom? list initial 0 list).bind fun p => (p.cut? list (Text.byteLength list)).map tokens

end Pass

end Token

end ClassHighlight
