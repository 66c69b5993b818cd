import ClassHighlight.Text.Basic

/-!
# Quotes and escapes

A backslash escapes the byte after it, unless it is escaped itself. A byte is therefore escaped
when an odd number of backslashes stands directly before it. A scan over a text follows which
quoted region it is in with a `QuoteState`: a quote that is not escaped opens a region, and only
the same quote, again not escaped, closes it.
-/

namespace ClassHighlight

/-- The byte that escapes the next one. -/
def backslash : UInt8 := '\\'.toUInt8

/-- Whether an odd number of backslashes stands directly before a byte; an index past the end
asks for the place after the last byte. -/
def isEscaped (bytes : List UInt8) (index : Nat) : Bool :=
  ((bytes.take index).reverse.takeWhile (· == backslash)).length % 2 == 1

/-- Whether the byte after `b` is escaped, when `b` is escaped or not. -/
def escapesNext (escaped : Bool) (b : UInt8) : Bool :=
  b == backslash && !escaped

/-- The delimiters of quoted regions. -/
inductive Quote where
  /-- The apostrophe. -/
  | single
  /-- The quotation mark. -/
  | double
  /-- The backquote of template literals. -/
  | template
deriving DecidableEq, Repr, Inhabited

namespace Quote

/-- The delimiter as a character. -/
def char : Quote → Char
  | .single => '\x27'
  | .double => '\x22'
  | .template => '\x60'

/-- The delimiter as a byte. -/
def byte (q : Quote) : UInt8 :=
  q.char.toUInt8

/-- All delimiters. -/
def all : List Quote := [.single, .double, .template]

/-- The quote that a byte delimits. -/
def ofByte? (b : UInt8) : Option Quote :=
  all.find? fun q => q.byte == b

/-- The quote that a character delimits. -/
def ofChar? (c : Char) : Option Quote :=
  all.find? fun q => q.char == c

/-- A byte that stands for a character delimits the same quote. -/
theorem ofByte?_eq_ofChar? {b : UInt8} {c : Char} (h : ∀ q : Quote, b = q.byte ↔ c = q.char) :
    ofByte? b = ofChar? c := by
  unfold ofByte? ofChar?
  congr 1
  funext q
  rw [Bool.eq_iff_iff, beq_iff_eq, beq_iff_eq, eq_comm, h q, eq_comm]

end Quote

/-- The quoted region that a scan is in, if any. -/
abbrev QuoteState := Option Quote

namespace QuoteState

/-- The state after one more byte, and whether that byte was a delimiter. -/
def step (open? : QuoteState) (escaped : Bool) (b : UInt8) : QuoteState × Bool :=
  match open? with
  | some q => if b == q.byte && !escaped then (none, true) else (some q, false)
  | none =>
    match Quote.ofByte? b with
    | some q => if escaped then (none, false) else (some q, true)
    | none => (none, false)

end QuoteState

end ClassHighlight
