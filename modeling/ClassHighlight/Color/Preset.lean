import ClassHighlight.Color.Basic

/-!
# Presets

The palettes to choose from, and how overrides change them.
-/

namespace ClassHighlight

/-- A named palette. -/
inductive Preset where
  /-- For light backgrounds, easy to read. -/
  | clear
  /-- For light backgrounds, gentle. -/
  | soft
  /-- For dark backgrounds, balanced. -/
  | calm
  /-- For dark backgrounds, strong. -/
  | contrast
  /-- For dark backgrounds, quiet. -/
  | muted
deriving DecidableEq, Repr

/-- The balanced palette is the default. -/
instance : Inhabited Preset := ⟨.calm⟩

namespace Preset

/-- All presets. -/
def all : List Preset := [.clear, .soft, .calm, .contrast, .muted]

/-- The name of a preset. -/
def name : Preset → Text
  | .clear => "Clear".toList
  | .soft => "Soft".toList
  | .calm => "Calm".toList
  | .contrast => "Contrast".toList
  | .muted => "Muted".toList

/-- What a preset is for. -/
def description : Preset → Text
  | .clear => "Light mode · High readability".toList
  | .soft => "Light mode · Gentle contrast".toList
  | .calm => "Dark mode · Balanced (default)".toList
  | .contrast => "Dark mode · High contrast".toList
  | .muted => "Dark mode · Low noise".toList

/-- The colors of a preset. -/
def palette : Preset → Palette
  | .clear => ByCategory.map Color.ofNat ⟨0x2563EB, 0xDC2626, 0xB45309, 0x1F2937⟩
  | .soft => ByCategory.map Color.ofNat ⟨0x4F46E5, 0xE11D48, 0xCA8A04, 0x374151⟩
  | .calm => ByCategory.map Color.ofNat ⟨0x7FB4FF, 0xFF6B81, 0xF2C97D, 0xD1D7E0⟩
  | .contrast => ByCategory.map Color.ofNat ⟨0x93C5FD, 0xFB7185, 0xFACC15, 0xE5E7EB⟩
  | .muted => ByCategory.map Color.ofNat ⟨0x9CA3AF, 0xF87171, 0xD4B483, 0x9CA3AF⟩

/-- A text in lower case, as far as ASCII letters go. -/
def foldCase (t : Text) : Text := t.map Char.toLower

/-- The preset with a given name, in any case of ASCII letters and with blanks around it. -/
def ofName? (t : Text) : Option Preset :=
  all.find? fun p => foldCase p.name == foldCase t.trim

end Preset

/-- For each category, a written color that replaces the preset's, if one is set. -/
abbrev Overrides := ByCategory (Option Text)

namespace Overrides

/-- No overrides. -/
def none : Overrides := ⟨.none, .none, .none, .none⟩

/-- Whether no override is set. -/
def isEmpty (o : Overrides) : Bool :=
  Category.all.all fun c => (o.get c).isNone

end Overrides

/-- The colors of the preset with a given name, or of the default one if there is none, with the
overrides that are written colors in place of the preset's. -/
def Palette.resolve (preset : Text) (overrides : Overrides) : Palette :=
  let base := ((Preset.ofName? preset).getD default).palette
  .ofFn fun c => ((overrides.get c).bind fun t => (Color.parse t).toOption).getD (base.get c)

end ClassHighlight
