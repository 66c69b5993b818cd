import ClassHighlight.Source.Quote

/-!
# Nesting of brackets in a class list

Square brackets hold arbitrary values: in them blanks and colons are nothing special, and quotes
hide brackets. `Nesting` follows this from one character to the next. Outside brackets quotes have
no meaning, and a closing bracket there is an ordinary character.
-/

namespace ClassHighlight

/-- Where a scan of a class list stands. -/
structure Nesting where
  /-- The number of open brackets. -/
  depth : Nat
  /-- The quote that is open within the brackets, if any. -/
  quote : QuoteState
  /-- Whether the next character is escaped. -/
  escaped : Bool
deriving DecidableEq, Repr

namespace Nesting

/-- The start of a class list. -/
def start : Nesting := ⟨0, none, false⟩

/-- Whether the next character is outside all brackets. -/
def isOutside (n : Nesting) : Bool := n.depth == 0

/-- Reads one character. -/
def step (n : Nesting) (c : Char) : Nesting :=
  let escaped := c == '\\' && !n.escaped
  match n.quote with
  | some q => { n with quote := if c == q.char && !n.escaped then none else some q, escaped }
  | none =>
    if n.escaped then { n with escaped }
    else if c == '[' then { n with depth := n.depth + 1, escaped }
    else if c == ']' then { n with depth := n.depth - 1, escaped }
    else if n.isOutside then { n with escaped }
    else { n with quote := Quote.ofChar? c, escaped }

end Nesting

end ClassHighlight
