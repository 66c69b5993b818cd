import ClassHighlight.Text.Decimal
import ClassHighlight.Text.Hexadecimal

/-!
# JSON values

JSON values and how they are written over several lines, each level indented by two more spaces.
-/

namespace ClassHighlight

/-- A JSON value. -/
inductive JsonValue where
  /-- The null value. -/
  | null
  /-- True or false. -/
  | boolean (b : Bool)
  /-- A number that is written with digits alone. -/
  | natural (n : Nat)
  /-- Any other number, as it is written. -/
  | number (written : Text)
  /-- A string. -/
  | string (t : Text)
  /-- Values in order. -/
  | array (items : List JsonValue)
  /-- Values under names. -/
  | object (members : List (Text × JsonValue))
deriving Repr, Inhabited

namespace JsonValue

/-- A control character by its code point: a backslash, a `u` and four hexadecimal digits. -/
def controlCode (c : Char) : Text :=
  "\\u00".toList ++ (Text.hexByte c.toUInt8).map Char.toLower

/-- A character in a string. -/
def writeChar (c : Char) : Text :=
  if c == '\x22' then ['\\', '\x22']
  else if c == '\\' then ['\\', '\\']
  else if c == '\x08' then ['\\', 'b']
  else if c == '\x0c' then ['\\', 'f']
  else if c == '\n' then ['\\', 'n']
  else if c == '\r' then ['\\', 'r']
  else if c == '\t' then ['\\', 't']
  else if c.toNat < 0x20 then controlCode c
  else [c]

/-- A string in quotation marks. -/
def writeString (t : Text) : Text :=
  '\x22' :: t.flatMap writeChar ++ ['\x22']

/-- The start of a line at a level. -/
def lineStart (level : Nat) : Text :=
  '\n' :: List.replicate (2 * level) ' '

/-- Parts between brackets, each on a line of its own; no parts leave the brackets together. -/
def writeBlock (level : Nat) (opening closing : Char) : List Text → Text
  | [] => [opening, closing]
  | parts =>
    opening :: [','].intercalate (parts.map (lineStart (level + 1) ++ ·)) ++
      lineStart level ++ [closing]

mutual

/-- A value that starts at a level. -/
def writeAt (level : Nat) : JsonValue → Text
  | .null => "null".toList
  | .boolean b => if b then "true".toList else "false".toList
  | .natural n => Text.decimal n
  | .number written => written
  | .string t => writeString t
  | .array items => writeBlock level '[' ']' (writeItems (level + 1) items)
  | .object members => writeBlock level '{' '}' (writeMembers (level + 1) members)

/-- The values of an array at a level. -/
def writeItems (level : Nat) : List JsonValue → List Text
  | [] => []
  | v :: rest => writeAt level v :: writeItems level rest

/-- The members of an object at a level. -/
def writeMembers (level : Nat) : List (Text × JsonValue) → List Text
  | [] => []
  | (name, v) :: rest =>
    (writeString name ++ ": ".toList ++ writeAt level v) :: writeMembers level rest

end

/-- A value over several lines. -/
def write (v : JsonValue) : Text := writeAt 0 v

end JsonValue

end ClassHighlight
