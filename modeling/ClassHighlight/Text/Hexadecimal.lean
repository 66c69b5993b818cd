import ClassHighlight.Text.Basic

/-!
# Hexadecimal digits
-/

namespace ClassHighlight

namespace Text

/-- The hexadecimal digits, in upper case. -/
def hexDigits : Text := "0123456789ABCDEF".toList

/-- The digit of a number below sixteen, in upper case. -/
def hexDigit (n : Nat) : Char := hexDigits.getD n '0'

/-- The value of a hexadecimal digit in either case. -/
def hexValue? (c : Char) : Option Nat :=
  hexDigits.findIdx? (· == c.toUpper)

/-- A byte as two hexadecimal digits. -/
def hexByte (b : UInt8) : Text :=
  [hexDigit (b.toNat / 16), hexDigit (b.toNat % 16)]

/-- The number that some digits of a base stand for, the first digit being the highest. -/
def ofDigitValues (base : Nat) (digits : List Nat) : Nat :=
  digits.foldl (fun n d => base * n + d) 0

/-- Reads one or more hexadecimal digits, which may start with zeros, up to a bound. -/
def readHexDigits? (bound : Nat) (t : Text) : Option Nat :=
  (t.mapM hexValue?).bind fun digits =>
    let n := ofDigitValues 16 digits
    if digits ≠ [] ∧ n ≤ bound then some n else none

/-- Reads a hexadecimal number up to a bound: digits, after at most one plus sign. -/
def readHexNumber? (bound : Nat) : Text → Option Nat
  | '+' :: digits => readHexDigits? bound digits
  | digits => readHexDigits? bound digits

/-- A digit is read back. -/
theorem hexValue?_hexDigit : ∀ n < 16, hexValue? (hexDigit n) = some n := by
  decide

end Text

end ClassHighlight
