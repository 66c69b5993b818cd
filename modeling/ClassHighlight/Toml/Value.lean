import ClassHighlight.Text.Basic

/-!
# TOML values

The values of a TOML document. A table remembers how it came to be, because that decides whether
later lines may add to it.
-/

namespace ClassHighlight

namespace Toml

/-- How a table came to be. -/
inductive Origin where
  /-- By a header of its own. -/
  | header
  /-- By the header of a table within it. -/
  | implied
  /-- By a dotted key. -/
  | dotted
  /-- By a value in braces. -/
  | braces
deriving DecidableEq, Repr

/-- A TOML value. Numbers with a fraction or an exponent, dates and times are kept as written. -/
inductive Value where
  /-- A string. -/
  | string (text : Text)
  /-- True or false. -/
  | boolean (b : Bool)
  /-- An integer of 64 bits with a sign. -/
  | integer (n : Int)
  /-- A floating-point number. -/
  | float (written : Text)
  /-- A date, a time, or both. -/
  | moment (written : Text)
  /-- Values in brackets. -/
  | array (items : List Value)
  /-- A table with its entries. -/
  | table (origin : Origin) (entries : List (Text × Value))
  /-- The tables under headers in double brackets. -/
  | tables (rows : List (List (Text × Value)))
deriving Repr

/-- The entries of a table, in the order in which they were added. -/
abbrev Entries := List (Text × Value)

end Toml

end ClassHighlight
