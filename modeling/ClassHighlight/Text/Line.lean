import ClassHighlight.Text.Basic

/-!
# Lines

A text is divided into lines at line breaks. A carriage return directly before a line feed makes
one break with it. Every line but the last holds its break; the last one may be empty.
-/

namespace ClassHighlight

namespace Text

/-- Whether a character ends a line on its own: line feed, vertical tab, form feed, carriage
return, next line, line separator or paragraph separator. -/
def isLineBreak (c : Char) : Bool :=
  (0x0A ≤ c.toNat && c.toNat ≤ 0x0D) || c.toNat == 0x85 || c.toNat == 0x2028 || c.toNat == 0x2029

/-- Puts a character in front of the first line. -/
def consToLine (c : Char) : List Text → List Text
  | [] => [[c]]
  | line :: rest => (c :: line) :: rest

/-- The lines of a text, each with its break. -/
def lines : Text → List Text
  | [] => [[]]
  | '\r' :: '\n' :: rest => ['\r', '\n'] :: lines rest
  | c :: rest => if isLineBreak c then [c] :: lines rest else consToLine c (lines rest)

/-- The number of characters of a line before its final line feed, and before a carriage return
in front of that. Other breaks count as part of the line. -/
def columns (line : Text) : Nat :=
  match line.reverse with
  | '\n' :: '\r' :: before => before.length
  | '\n' :: before => before.length
  | all => all.length

theorem flatten_consToLine (c : Char) (ls : List Text) :
    (consToLine c ls).flatten = c :: ls.flatten := by
  cases ls <;> simp [consToLine]

/-- Dividing a text into lines loses nothing. -/
theorem flatten_lines (t : Text) : (lines t).flatten = t := by
  fun_induction lines t <;> simp_all [flatten_consToLine]

/-- There is always a line. -/
theorem lines_ne_nil (t : Text) : lines t ≠ [] := by
  fun_induction lines t with
  | case1 => simp
  | case2 => simp
  | case3 => simp
  | case4 c rest _ _ ih => cases h : lines rest <;> simp [consToLine]

end Text

end ClassHighlight
