import ClassHighlight.Config.File
import ClassHighlight.Proofs.Name
import ClassHighlight.Proofs.Toml.Document

/-!
# Saved configurations

A saved configuration is loaded as it was. The file is followed line by line: the three entries in
front of the header, and then one entry for each override that is set. Since an override that is not
set has no line, reading finds the same ones unset.
-/

namespace ClassHighlight

namespace Config

/-! ## What the file says -/

/-- The entry of an override, if it is set. -/
def overrideItem? (o : Overrides) (c : Category) : Option (Text × Toml.Value) :=
  (o.get c).map fun t => (c.name, .string t)

theorem overrideItem?_eq_none {o : Overrides} {c : Category} (h : o.get c = none) :
    overrideItem? o c = none := by
  rw [overrideItem?, h, Option.map_none]

theorem overrideItem?_eq_some {o : Overrides} {c : Category} {t : Text} (h : o.get c = some t) :
    overrideItem? o c = some (c.name, .string t) := by
  rw [overrideItem?, h, Option.map_some]

/-- The entries that a file has for a configuration. -/
def entries (c : Config) : Toml.Entries :=
  [(enabledKey, .boolean c.isEnabled), (modeKey, .string c.mode.name),
    (presetKey, .string c.preset),
    (colorsKey, .table .header (Category.all.filterMap (overrideItem? c.overrides)))]

theorem isBareKey_name (c : Category) : Toml.IsBareKey c.name := by
  cases c <;> decide

/-- An override is found by its name among the overrides of other categories. -/
theorem lookup_overrides (o : Overrides) {cs : List Category} (hnodup : cs.Nodup) (c : Category) :
    (cs.filterMap (overrideItem? o)).lookup c.name =
      if c ∈ cs then (o.get c).map .string else none := by
  have hitem : overrideItem? o =
      fun c => ((o.get c).map Toml.Value.string).map fun v => (c.name, v) := by
    funext c
    rw [Option.map_map]
    rfl
  rw [hitem]
  exact Category.lookup_entries hnodup c

/-! ## The file is read line by line -/

/-- A line of the file adds its entry. -/
theorem readLinesInto?_writeLine {d : Toml.Draft} {key written : Text} {v : Toml.Value}
    (hkey : Toml.IsBareKey key) (hvalue : Toml.Denotes written v)
    (hnew : d.entries.lookup key = none) (rest : Text) :
    Toml.readLinesInto? d (writeLine key written ++ rest) =
      Toml.readLinesInto? { d with entries := d.entries ++ [(key, v)] } rest := by
  have hline : writeLine key written ++ rest =
      key ++ ([' ', '=', ' '] ++ (written ++ '\n' :: rest)) := by
    simp [writeLine]
  rw [hline]
  exact Toml.readLinesInto?_entry hkey hvalue hnew rest

/-- The lines of overrides add the entries of those that are set. -/
theorem readLinesInto?_overrides (o : Overrides) (d : Toml.Draft) {cs : List Category}
    (hnodup : cs.Nodup) (hnew : ∀ c ∈ cs, d.entries.lookup c.name = none) :
    Toml.readLinesInto? d (cs.flatMap fun c =>
      match o.get c with
      | some t => writeLine c.name (Toml.writeString t)
      | none => []) =
      Toml.Draft.finish { d with entries := d.entries ++ cs.filterMap (overrideItem? o) } := by
  induction cs generalizing d with
  | nil =>
    rw [List.flatMap_nil, Toml.readLinesInto?_nil, List.filterMap_nil, List.append_nil]
  | cons c cs ih =>
    obtain ⟨hc, hnodup⟩ := List.nodup_cons.mp hnodup
    obtain ⟨hfirst, hnew⟩ := List.forall_mem_cons.mp hnew
    rw [List.flatMap_cons]
    cases hget : o.get c with
    | none =>
      rw [List.nil_append, List.filterMap_cons_none (overrideItem?_eq_none hget)]
      exact ih d hnodup hnew
    | some t =>
      rw [List.filterMap_cons_some (overrideItem?_eq_some hget),
        readLinesInto?_writeLine (isBareKey_name c) (Toml.denotes_writeString t) hfirst,
        ih _ hnodup, List.append_assoc, List.singleton_append]
      intro c' hc'
      have hname : (c'.name == c.name) = false :=
        beq_false_of_ne fun h => hc (Category.name_injective h ▸ hc')
      rw [List.lookup_append, hnew c' hc', List.lookup_cons, hname]
      rfl

/-- The file has one table for the overrides, and the other entries in front of it. -/
theorem readDocument?_write (c : Config) : Toml.readDocument? c.write = some c.entries := by
  obtain ⟨isEnabled, mode, preset, overrides⟩ := c
  have hboolean : Toml.Denotes (if isEnabled then "true".toList else "false".toList)
      (.boolean isEnabled) := by
    cases isEnabled
    · exact Toml.denotes_false
    · exact Toml.denotes_true
  have hkeys : Toml.IsBareKey enabledKey ∧ Toml.IsBareKey modeKey ∧ Toml.IsBareKey presetKey ∧
      Toml.IsBareKey colorsKey := by decide
  obtain ⟨henabled, hmode, hpreset, hcolors⟩ := hkeys
  have hfile : write ⟨isEnabled, mode, preset, overrides⟩ =
      writeLine enabledKey (if isEnabled then "true".toList else "false".toList) ++
        (writeLine modeKey (Toml.writeString mode.name) ++
          (writeLine presetKey (Toml.writeString preset) ++
            ('\n' :: '[' :: (colorsKey ++ (']' :: '\n' :: writeOverrides overrides))))) := by
    simp [write]
  have hstart (rest : Text) : Toml.readDocument? (enabledKey ++ rest) =
      Toml.readLinesInto? ⟨[], [], false, []⟩ (enabledKey ++ rest) := rfl
  rw [hfile]
  calc Toml.readDocument? _
    _ = Toml.readLinesInto? ⟨[], [], false, []⟩ _ := hstart _
    _ = Toml.readLinesInto? ⟨[], [], false, [(enabledKey, .boolean isEnabled)]⟩ _ :=
      readLinesInto?_writeLine henabled hboolean rfl _
    _ = Toml.readLinesInto? ⟨[], [], false,
          [(enabledKey, .boolean isEnabled), (modeKey, .string mode.name)]⟩ _ :=
      readLinesInto?_writeLine hmode (Toml.denotes_writeString _) rfl _
    _ = Toml.readLinesInto? ⟨[], [], false,
          [(enabledKey, .boolean isEnabled), (modeKey, .string mode.name),
            (presetKey, .string preset)]⟩ _ :=
      readLinesInto?_writeLine hpreset (Toml.denotes_writeString _) rfl _
    _ = Toml.readLinesInto? ⟨[(enabledKey, .boolean isEnabled), (modeKey, .string mode.name),
            (presetKey, .string preset)], [colorsKey], false, []⟩ (writeOverrides overrides) := by
      rw [Toml.readLinesInto?_lineFeed]
      exact Toml.readLinesInto?_header hcolors rfl _
    _ = Toml.Draft.finish ⟨[(enabledKey, .boolean isEnabled), (modeKey, .string mode.name),
            (presetKey, .string preset)], [colorsKey], false,
          Category.all.filterMap (overrideItem? overrides)⟩ :=
      readLinesInto?_overrides overrides _ Category.nodup_all fun _ _ => rfl
    _ = some (entries ⟨isEnabled, mode, preset, overrides⟩) := Toml.Draft.finish_singleton rfl

/-! ## The entries make the configuration -/

theorem readOverride?_entry (o : Overrides) (c : Category) :
    readEntry? (Category.all.filterMap (overrideItem? o)) c.name none readOverride? =
      some (o.get c) := by
  unfold readEntry?
  rw [lookup_overrides o Category.nodup_all, if_pos (Category.mem_all c)]
  cases o.get c with
  | none => rfl
  | some t => rfl

/-- The overrides that are set, and no others, are found in their table. -/
theorem readOverrides?_table (o : Overrides) (origin : Toml.Origin) :
    readOverrides? (.table origin (Category.all.filterMap (overrideItem? o))) = some o := by
  simp only [readOverrides?, readOverride?_entry, Option.bind_eq_bind, Option.bind_some]
  rfl

theorem ofEntries?_entries (c : Config) : ofEntries? c.entries = some c := by
  have henabled : readEntry? c.entries enabledKey (default : Config).isEnabled readBoolean? =
      some c.isEnabled := rfl
  have hmode : readEntry? c.entries modeKey (default : Config).mode readMode? = some c.mode :=
    Mode.ofName?_name c.mode
  have hpreset : readEntry? c.entries presetKey (default : Config).preset readString? =
      some c.preset := rfl
  have hcolors : readEntry? c.entries colorsKey (default : Config).overrides readOverrides? =
      some c.overrides := readOverrides?_table c.overrides .header
  rw [ofEntries?]
  simp only [henabled, hmode, hpreset, hcolors, Option.bind_eq_bind, Option.bind_some]
  rfl

/-- The text of a saved configuration is read as the configuration. -/
theorem read_write (c : Config) : read c.write = .ok c := by
  rw [read, readDocument?_write, Option.bind_some, ofEntries?_entries]

/-! ## Saving and loading -/

/-- A file with a text is loaded as the text is read. -/
theorem load_encode (t : Text) : load (some (Text.encode t)) = read t := by
  rw [load, Option.bind_some, Text.ofBytes?_encode]

/-- A saved configuration is loaded unchanged, whatever its texts are and whichever of its overrides
are set. -/
theorem load_save (c : Config) : load (some c.save) = .ok c := by
  rw [save, load_encode, read_write]

end Config

end ClassHighlight
