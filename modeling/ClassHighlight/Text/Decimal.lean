import ClassHighlight.Text.Basic

/-!
# Decimal numerals

Writing a number in decimal, and reading one that has to fit into 64 bits.
-/

namespace ClassHighlight

/-- The largest number that fits into 64 bits. -/
def maxNat64 : Nat := 0xFFFFFFFFFFFFFFFF

namespace Text

/-- The decimal digits of a number, without leading zeros. -/
def decimal (n : Nat) : Text :=
  Nat.toDigits 10 n

/-- Reads one or more decimal digits, which may start with zeros, up to a bound. -/
def readDigits? (bound : Nat) (t : Text) : Option Nat :=
  let n := Nat.ofDigitChars 10 t 0
  if t ≠ [] ∧ t.all Char.isDigit ∧ n ≤ bound then some n else none

/-- Reads a number of 64 bits: decimal digits, after at most one plus sign. -/
def readNat64? : Text → Option Nat
  | '+' :: digits => readDigits? maxNat64 digits
  | digits => readDigits? maxNat64 digits

end Text

end ClassHighlight
