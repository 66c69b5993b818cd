import ClassHighlight.Color.Preset
import ClassHighlight.Mode

/-!
# Configuration

What a user can set, and the short status text that follows from it.
-/

namespace ClassHighlight

/-- Whether highlighting is on, and in which mode. -/
structure Status where
  /-- Whether highlighting is on. -/
  isEnabled : Bool
  /-- The mode it is in when it is on. -/
  mode : Mode
deriving DecidableEq, Repr, Inhabited

/-- The status as it is shown. -/
def Status.render (s : Status) : Text :=
  "Prism · ".toList ++ if s.isEnabled then s.mode.name else "Off".toList

/-- What a user can set. -/
structure Config where
  /-- Whether highlighting is on. -/
  isEnabled : Bool
  /-- The mode of highlighting. -/
  mode : Mode
  /-- The name of the preset; it need not be one that exists. -/
  preset : Text
  /-- Colors in place of the preset's; they need not be written colors. -/
  overrides : Overrides
deriving DecidableEq, Repr

/-- Highlighting is off until it is turned on. -/
instance : Inhabited Config := ⟨⟨false, default, Preset.name default, Overrides.none⟩⟩

namespace Config

/-- The colors to paint with. -/
def palette (c : Config) : Palette := Palette.resolve c.preset c.overrides

/-- The status that follows. -/
def status (c : Config) : Status := ⟨c.isEnabled, c.mode⟩

end Config

end ClassHighlight
