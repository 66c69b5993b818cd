import ClassHighlight.Text.Decimal

/-!
# Arithmetic within 64 bits

A sum, a product or a difference of numbers of 64 bits fails if it is not such a number itself. A
numeral can be read within 64 bits, digit after digit. This fails as soon as the digits read so far
stand for a number that is too large, whatever follows them.
-/

namespace ClassHighlight

namespace Nat64

/-- A number, if it fits into 64 bits. -/
def fit? (n : Nat) : Option Nat := if n ≤ maxNat64 then some n else none

/-- The sum of two numbers. -/
def add? (m n : Nat) : Option Nat := fit? (m + n)

/-- The product of two numbers. -/
def mul? (m n : Nat) : Option Nat := fit? (m * n)

/-- The difference of two numbers, which is never negative. -/
def sub? (m n : Nat) : Option Nat := if n ≤ m then some (m - n) else none

theorem fit?_eq_some_iff {m n : Nat} : fit? m = some n ↔ m = n ∧ n ≤ maxNat64 := by
  unfold fit?
  split <;> grind

theorem add?_eq_some_iff {k m n : Nat} : add? k m = some n ↔ k + m = n ∧ n ≤ maxNat64 :=
  fit?_eq_some_iff

/-! ## Numerals -/

/-- The number that digits stand for with one more behind them, from the one without it. -/
def push? (n : Nat) (c : Char) : Option Nat := do
  let shifted ← mul? n 10
  if c.isDigit then add? shifted (c.toNat - '0'.toNat) else none

/-- Reads a number digit after digit, after at most one plus sign. -/
def read? : Text → Option Nat
  | [] => none
  | ['+'] => none
  | '+' :: digits => digits.foldlM push? 0
  | digits => digits.foldlM push? 0

end Nat64

end ClassHighlight
