import Mathlib.Data.List.Nodup
import ClassHighlight.Color.Preset
import ClassHighlight.Mode

/-!
# Names

Categories, modes and presets are found by their names, and so is what is listed under the names of
categories.
-/

namespace ClassHighlight

theorem Mode.ofName?_name (m : Mode) : Mode.ofName? m.name = some m := by
  cases m <;> rfl

theorem Preset.find?_name (p : Preset) :
    (Preset.all.find? fun q => q.name == p.name) = some p := by
  cases p <;> rfl

namespace Category

theorem ofName?_name (c : Category) : ofName? c.name = some c := by
  cases c <;> rfl

theorem name_injective {c c' : Category} (h : c.name = c'.name) : c = c' := by
  have hfound := ofName?_name c
  rw [h, ofName?_name] at hfound
  exact (Option.some.inj hfound).symm

theorem nodup_all : all.Nodup := by decide

section Entries

variable {α : Type} (f : Category → Option α) {cs : List Category}

/-- The values that some categories have, under their names. -/
def entries (cs : List Category) : List (Text × α) :=
  cs.filterMap fun c => (f c).map fun a => (c.name, a)

variable {f}

theorem entries_cons_none {c : Category} (h : f c = none) (cs : List Category) :
    entries f (c :: cs) = entries f cs :=
  List.filterMap_cons_none (by rw [h, Option.map_none])

theorem entries_cons_some {c : Category} {a : α} (h : f c = some a) (cs : List Category) :
    entries f (c :: cs) = (c.name, a) :: entries f cs :=
  List.filterMap_cons_some (by rw [h, Option.map_some])

/-- The value of a category is found by its name among the values of other categories. -/
theorem lookup_entries (hnodup : cs.Nodup) (c : Category) :
    (entries f cs).lookup c.name = if c ∈ cs then f c else none := by
  induction cs with
  | nil => rfl
  | cons c' cs ih =>
    obtain ⟨hnew, hnodup⟩ := List.nodup_cons.mp hnodup
    specialize ih hnodup
    by_cases hc : c = c'
    · subst hc
      rw [if_pos List.mem_cons_self]
      cases hvalue : f c with
      | none => rw [entries_cons_none hvalue, ih, if_neg hnew]
      | some a => rw [entries_cons_some hvalue, List.lookup_cons_self]
    · have hmem : c ∈ c' :: cs ↔ c ∈ cs := by simp [hc]
      simp only [hmem]
      rw [← ih]
      cases hvalue : f c' with
      | none => rw [entries_cons_none hvalue]
      | some a =>
        have hname : (c.name == c'.name) = false := beq_false_of_ne fun h => hc (name_injective h)
        rw [entries_cons_some hvalue, List.lookup_cons, hname]

/-- No name is given twice. -/
theorem nodup_entries (hnodup : cs.Nodup) : ((entries f cs).map Prod.fst).Nodup := by
  rw [entries, List.map_filterMap]
  refine List.Nodup.filterMap (fun c c' name hc hc' => ?_) hnodup
  obtain ⟨item, hitem, rfl⟩ := Option.map_eq_some_iff.1 hc
  obtain ⟨item', hitem', hname⟩ := Option.map_eq_some_iff.1 hc'
  obtain ⟨a, -, rfl⟩ := Option.map_eq_some_iff.1 hitem
  obtain ⟨a', -, rfl⟩ := Option.map_eq_some_iff.1 hitem'
  exact (name_injective hname).symm

end Entries

end Category

end ClassHighlight
