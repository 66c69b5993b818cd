import ClassHighlight.Buffer.Position
import ClassHighlight.Config.Basic
import ClassHighlight.Highlight
import ClassHighlight.Json.Record

/-!
# The values of the library in JSON

For each kind of value, how it is written and how it is read. What is written is read back; a color
is read in every written form and written in the one that `Color.render` gives.
-/

namespace ClassHighlight

open JsonValue

/-! ## Spans and positions -/

namespace Span

/-- The names of the fields. -/
def fieldNames : List Text := ["start".toList, "end".toList]

/-- A span in JSON. -/
def toJson (s : Span) : JsonValue :=
  .object (fieldNames.zip [.natural s.start, .natural s.stop])

/-- Reads a span; its bounds may be in any order. -/
def ofJson? (v : JsonValue) : Option Span := do
  match ← v.strictFields? fieldNames with
  | [start, stop] => return ⟨← natural? start, ← natural? stop⟩
  | _ => none

end Span

namespace Position

/-- The names of the fields. -/
def fieldNames : List Text := ["line".toList, "column".toList]

/-- A position in JSON, counted from zero. -/
def toJson (p : Position) : JsonValue :=
  .object (fieldNames.zip [.natural p.line, .natural p.column])

/-- Reads a position. -/
def ofJson? (v : JsonValue) : Option Position := do
  match ← v.strictFields? fieldNames with
  | [line, column] => return ⟨← natural? line, ← natural? column⟩
  | _ => none

end Position

/-! ## Choices -/

/-- A mode in JSON. -/
def Mode.toJson (m : Mode) : JsonValue := .string m.name

/-- Reads a mode. -/
def Mode.ofJson? (v : JsonValue) : Option Mode := (choice? v).bind Mode.ofName?

/-- A category in JSON. -/
def Category.toJson (c : Category) : JsonValue := .string c.name

/-- Reads a category. -/
def Category.ofJson? (v : JsonValue) : Option Category := (choice? v).bind Category.ofName?

/-- A preset in JSON. -/
def Preset.toJson (p : Preset) : JsonValue := .string p.name

/-- Reads a preset, whose name has to be exact. -/
def Preset.ofJson? (v : JsonValue) : Option Preset :=
  (choice? v).bind fun name => Preset.all.find? fun p => p.name == name

/-! ## Colors -/

/-- A color in JSON. -/
def Color.toJson (c : Color) : JsonValue := .string c.render

/-- Reads a color. -/
def Color.ofJson? (v : JsonValue) : Option Color :=
  (string? v).bind fun t => (Color.parse t).toOption

namespace ByCategory

/-- The names of the fields. -/
def fieldNames : List Text := Category.all.map Category.name

/-- A record in JSON. -/
def toJson {α : Type} (write : α → JsonValue) (r : ByCategory α) : JsonValue :=
  .object (fieldNames.zip (r.map write).toList)

/-- Reads a record with all its fields. -/
def ofJson? {α : Type} (read? : JsonValue → Option α) (v : JsonValue) : Option (ByCategory α) := do
  match ← v.strictFields? fieldNames with
  | [a, b, c, d] => return ⟨← read? a, ← read? b, ← read? c, ← read? d⟩
  | _ => none

end ByCategory

/-- A palette in JSON. -/
def Palette.toJson (p : Palette) : JsonValue := ByCategory.toJson Color.toJson p

/-- Reads a palette. -/
def Palette.ofJson? (v : JsonValue) : Option Palette := ByCategory.ofJson? Color.ofJson? v

namespace Overrides

/-- Overrides in JSON; those that are not set are left out. -/
def toJson (o : Overrides) : JsonValue :=
  .object (Category.all.filterMap fun c => (o.get c).map fun t => (c.name, .string t))

/-- Reads an override; null and nothing leave it unset. -/
def itemOfJson? : Option JsonValue → Option (Option Text)
  | .none | some .null => some .none
  | some (.string t) => some (some t)
  | some _ => .none

/-- Reads overrides. -/
def ofJson? (v : JsonValue) : Option Overrides := do
  match ← v.fields? ByCategory.fieldNames with
  | [a, b, c, d] => return ⟨← itemOfJson? a, ← itemOfJson? b, ← itemOfJson? c, ← itemOfJson? d⟩
  | _ => .none

end Overrides

/-! ## Highlights and configurations -/

/-- Highlights in JSON. -/
def Highlights.toJson (h : Highlights) : JsonValue :=
  ByCategory.toJson (fun spans => .array (spans.map Span.toJson)) h

/-- Reads highlights. -/
def Highlights.ofJson? (v : JsonValue) : Option Highlights :=
  ByCategory.ofJson? (list? Span.ofJson?) v

namespace Config

/-- The names of the fields. -/
def fieldNames : List Text :=
  ["enabled".toList, "highlight_mode".toList, "color_preset".toList, "colors".toList]

/-- A configuration in JSON. -/
def toJson (c : Config) : JsonValue :=
  .object (fieldNames.zip
    [.boolean c.isEnabled, c.mode.toJson, .string c.preset, Overrides.toJson c.overrides])

/-- Reads a field, or takes a default if there is none. -/
def fieldOfJson? {α : Type} (dflt : α) (read? : JsonValue → Option α) : Option JsonValue → Option α
  | none => some dflt
  | some v => read? v

/-- Reads a configuration. -/
def ofJson? (v : JsonValue) : Option Config := do
  let dflt : Config := default
  match ← v.fields? fieldNames with
  | [enabled, mode, preset, colors] =>
    return {
      isEnabled := ← fieldOfJson? dflt.isEnabled boolean? enabled
      mode := ← fieldOfJson? dflt.mode Mode.ofJson? mode
      preset := ← fieldOfJson? dflt.preset string? preset
      overrides := ← fieldOfJson? dflt.overrides Overrides.ofJson? colors }
  | _ => none

end Config

end ClassHighlight
