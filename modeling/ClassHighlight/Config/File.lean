import ClassHighlight.Config.Basic
import ClassHighlight.Toml.Document

/-!
# Configuration files

A configuration is kept as a TOML document. Entries that are missing have their defaults, and
unknown ones are passed over; one of the wrong kind makes the file invalid.
-/

namespace ClassHighlight

namespace Config

/-! ## Writing -/

/-- A line with a key and its value. -/
def writeLine (key value : Text) : Text :=
  key ++ " = ".toList ++ value ++ ['\n']

/-- The key that says whether highlighting is on. -/
def enabledKey : Text := "enabled".toList

/-- The key of the mode. -/
def modeKey : Text := "highlight_mode".toList

/-- The key of the preset. -/
def presetKey : Text := "color_preset".toList

/-- The key of the overrides. -/
def colorsKey : Text := "colors".toList

/-- The lines of the overrides that are set. -/
def writeOverrides (o : Overrides) : Text :=
  Category.all.flatMap fun c =>
    match o.get c with
    | some t => writeLine c.name (Toml.writeString t)
    | none => []

/-- The file that keeps a configuration. -/
def write (c : Config) : Text :=
  writeLine enabledKey (if c.isEnabled then "true".toList else "false".toList) ++
    writeLine modeKey (Toml.writeString c.mode.name) ++
    writeLine presetKey (Toml.writeString c.preset) ++
    ['\n'] ++ '[' :: colorsKey ++ [']', '\n'] ++ writeOverrides c.overrides

/-- The content of a file to which a configuration is saved. -/
def save (c : Config) : ByteArray := Text.encode c.write

/-! ## Reading -/

/-- Why a file holds no configuration. -/
inductive FileError where
  /-- The file is missing or does not hold UTF-8 text. -/
  | unreadable
  /-- The text is no TOML document, or an entry is of the wrong kind. -/
  | malformed
deriving DecidableEq, Repr

/-- The entry with a given key, read as its kind asks, or a default if there is none. -/
def readEntry? {α : Type} (entries : Toml.Entries) (key : Text) (dflt : α)
    (read? : Toml.Value → Option α) : Option α :=
  match entries.lookup key with
  | none => some dflt
  | some v => read? v

/-- A truth value. -/
def readBoolean? : Toml.Value → Option Bool
  | .boolean b => some b
  | _ => none

/-- A string. -/
def readString? : Toml.Value → Option Text
  | .string t => some t
  | _ => none

/-- Whether a value holds nothing in brackets, braces or under a header. -/
def isEmptyValue : Toml.Value → Bool
  | .array items => items.isEmpty
  | .table _ entries => entries.isEmpty
  | .tables rows => rows.isEmpty
  | _ => false

/-- A mode: its name as a string, or as the only key of a table, with nothing under it. -/
def readMode? : Toml.Value → Option Mode
  | .string t => Mode.ofName? t
  | .table _ [(key, v)] => if isEmptyValue v then Mode.ofName? key else none
  | _ => none

/-- A value as an override. -/
def readOverride? (v : Toml.Value) : Option (Option Text) := (readString? v).map some

/-- The overrides in a list, in the order of the categories; missing ones are not set, and what
comes after the last category is passed over. -/
def overridesOfList? (items : List Toml.Value) : Option Overrides := do
  let read? (index : Nat) : Option (Option Text) :=
    match items[index]? with
    | some v => readOverride? v
    | none => some none
  return ⟨← read? 0, ← read? 1, ← read? 2, ← read? 3⟩

/-- The overrides in a table or in a list. A date or a time counts as a table whose only key is
unknown, so it sets nothing. -/
def readOverrides? : Toml.Value → Option Overrides
  | .table _ entries => do
    let read? (c : Category) : Option (Option Text) := readEntry? entries c.name none readOverride?
    return ⟨← read? .variant, ← read? .important, ← read? .arbitrary, ← read? .utility⟩
  | .array items => overridesOfList? items
  | .tables rows => overridesOfList? (rows.map (.table .header))
  | .moment _ => some .none
  | _ => none

/-- The configuration that the entries of a document make. -/
def ofEntries? (entries : Toml.Entries) : Option Config := do
  let dflt : Config := default
  let isEnabled ← readEntry? entries enabledKey dflt.isEnabled readBoolean?
  let mode ← readEntry? entries modeKey dflt.mode readMode?
  let preset ← readEntry? entries presetKey dflt.preset readString?
  let overrides ← readEntry? entries colorsKey dflt.overrides readOverrides?
  return { isEnabled, mode, preset, overrides }

/-- Reads the text of a configuration file. -/
def read (t : Text) : Except FileError Config :=
  match (Toml.readDocument? t).bind ofEntries? with
  | some c => .ok c
  | none => .error .malformed

/-- Loads a configuration file, of which the content is given unless it is missing. -/
def load (content? : Option ByteArray) : Except FileError Config :=
  match content?.bind Text.ofBytes? with
  | some t => read t
  | none => .error .unreadable

/-- Loads the file at the default place; if it holds no configuration, there is a default one. -/
def loadDefault (content? : Option ByteArray) : Config :=
  match load content? with
  | .ok c => c
  | .error _ => default

/-- The place of the file in the user's directory for configurations. -/
def defaultPath (directory : Text) : Text :=
  directory ++ "/tailwind-prism/config.toml".toList

end Config

end ClassHighlight
