import ClassHighlight.Text.Blank

/-!
# Highlighting modes
-/

namespace ClassHighlight

/-- Which part of a document is highlighted. -/
inductive Mode where
  /-- All of it. -/
  | full
  /-- Only what is around the cursor. -/
  | cursor
deriving DecidableEq, Repr

/-- Full highlighting is the default. -/
instance : Inhabited Mode := ⟨.full⟩

namespace Mode

/-- The name of a mode. -/
def name : Mode → Text
  | .full => "full".toList
  | .cursor => "cursor".toList

/-- The mode with exactly the given name. -/
def ofName? (t : Text) : Option Mode :=
  [full, cursor].find? fun m => m.name == t

/-- Why a text does not name a mode. -/
inductive ParseError where
  /-- No mode has this name. -/
  | unknown (text : Text)
deriving DecidableEq, Repr

/-- The message of an error. -/
def ParseError.message : ParseError → Text
  | .unknown t =>
    "Unknown highlight mode: ".toList ++ t ++ " (expected \"full\" or \"cursor\")".toList

/-- Reads a mode's name, with blanks around it and in any case of ASCII letters. -/
def parse (t : Text) : Except ParseError Mode :=
  match ofName? (t.trim.map Char.toLower) with
  | some m => .ok m
  | none => .error (.unknown t)

end Mode

end ClassHighlight
