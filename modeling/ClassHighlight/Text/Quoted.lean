import ClassHighlight.Text.Basic
import ClassHighlight.Text.Printable

/-!
# Quoted texts

A text is quoted on one line: quotation marks and backslashes are escaped, common controls have
letters of their own, and other characters that would not show are written by their code point.
-/

namespace ClassHighlight

namespace Text

/-- A character by its code point, in hexadecimal: a backslash, a `u` and the digits in braces. -/
def codePoint (c : Char) : Text :=
  ['\\', 'u', '{'] ++ Nat.toDigits 16 c.toNat ++ ['}']

/-- A character within quotation marks. -/
def quoteChar (c : Char) : Text :=
  if c == '\x00' then ['\\', '0']
  else if c == '\t' then ['\\', 't']
  else if c == '\r' then ['\\', 'r']
  else if c == '\n' then ['\\', 'n']
  else if c == '\\' then ['\\', '\\']
  else if c == '\x22' then ['\\', '\x22']
  else if isExtender c || !isPrintable c then codePoint c
  else [c]

/-- A text in quotation marks. -/
def quoted (t : Text) : Text :=
  '\x22' :: t.flatMap quoteChar ++ ['\x22']

end Text

end ClassHighlight
