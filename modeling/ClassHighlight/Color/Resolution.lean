import ClassHighlight.Color.Preset
import ClassHighlight.Color.Reading

/-!
# Colors resolved one by one

The colors of a preset are taken first, and then the overrides put theirs into the places of their
categories. An override that is no written color leaves its place as it is.
-/

namespace ClassHighlight

namespace Palette

/-- Puts the color of an override into the place of its category, if one is set and written. -/
def override? (overrides : Overrides) (p : Palette) (c : Category) : Option Palette :=
  match overrides.get c with
  | none => some p
  | some t => (Color.read? t).map fun
    | .ok color => p.set c color
    | .error _ => p

/-- The colors of the preset with a given name, or of the default one if there is none, with the
overrides put into their places one by one. -/
def resolve? (preset : Text) (overrides : Overrides) : Option Palette :=
  Category.all.foldlM (override? overrides) ((Preset.ofName? preset).getD default).palette

end Palette

end ClassHighlight
