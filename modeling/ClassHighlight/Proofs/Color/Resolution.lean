import ClassHighlight.Color.Resolution
import ClassHighlight.Proofs.Color.Written

/-!
# Resolved colors

Each override decides about its own category and about no other, so putting the colors into their
places one by one comes to the same palette as choosing a color for each category. What is written
for a resolved color is an override that is read as this color, whatever the preset is.
-/

namespace ClassHighlight

namespace Text

/-- Two texts are equal up to the case of ASCII letters. -/
def EqIgnoringCase (t u : Text) : Prop :=
  List.Forall₂ (fun c d => c = d ∨ c.toUpper = d ∨ c = d.toUpper) t u

end Text

/-! ## Names of presets -/

namespace Preset

theorem foldCase_eq_iff {t u : Text} : foldCase t = foldCase u ↔ t.EqIgnoringCase u := by
  rw [foldCase, foldCase, ← List.forall₂_eq_eq_eq, List.forall₂_map_left_iff,
    List.forall₂_map_right_iff]
  simp only [Text.toLower_eq_iff]
  exact Iff.rfl

/-- The names are different in lower case too. -/
theorem foldCase_name_injective {p q : Preset} (h : foldCase p.name = foldCase q.name) : p = q := by
  cases p <;> cases q <;> first | rfl | exact absurd h (by decide)

theorem mem_all (p : Preset) : p ∈ all := by
  cases p <;> decide

theorem foldCase_name_of_ofName? {t : Text} {p : Preset} (h : ofName? t = some p) :
    foldCase p.name = foldCase t.trim := by
  have hfound := List.find?_some h
  exact eq_of_beq hfound

/-- The preset that is found is the one whose name is given. -/
theorem ofName?_eq_some_iff {t : Text} {p : Preset} :
    ofName? t = some p ↔ p.name.EqIgnoringCase t.trim := by
  rw [← foldCase_eq_iff]
  refine ⟨foldCase_name_of_ofName?, fun h => ?_⟩
  have hfound : (ofName? t).isSome = true :=
    List.find?_isSome.2 ⟨p, mem_all p, beq_iff_eq.2 h⟩
  obtain ⟨q, hq⟩ := Option.isSome_iff_exists.1 hfound
  rw [hq, foldCase_name_injective ((foldCase_name_of_ofName? hq).trans h.symm)]

theorem ofName?_eq_none_iff {t : Text} :
    ofName? t = none ↔ ∀ p : Preset, ¬ p.name.EqIgnoringCase t.trim := by
  simp only [← ofName?_eq_some_iff]
  exact Option.eq_none_iff_forall_ne_some

end Preset

/-! ## One override after the other -/

/-- The color that is set for a category, if there is one. -/
def Overrides.color? (overrides : Overrides) (c : Category) : Option Color :=
  (overrides.get c).bind fun t => (Color.parse t).toOption

namespace Palette

variable (overrides : Overrides) (p : Palette)

/-- An override decides about the color of its category, and about no other. -/
theorem exists_override? (c : Category) : ∃ q, override? overrides p c = some q ∧
    ∀ c', q.get c' = if c' = c then (overrides.color? c).getD (p.get c) else p.get c' := by
  have hsame (c' : Category) : p.get c' = if c' = c then p.get c else p.get c' := by
    split
    · rw [‹c' = c›]
    · rfl
  unfold override? Overrides.color?
  cases overrides.get c with
  | none => exact ⟨p, rfl, hsame⟩
  | some t =>
    simp only [Color.read?_eq, Option.map_some, Option.bind_some]
    cases Color.parse t with
    | ok color => exact ⟨_, rfl, ByCategory.get_set p c color⟩
    | error _ => exact ⟨p, rfl, hsame⟩

/-- A run over categories decides about their colors, and about no others. -/
theorem exists_foldlM_override? (cs : List Category) :
    ∃ q, cs.foldlM (override? overrides) p = some q ∧
      ∀ c, q.get c = if c ∈ cs then (overrides.color? c).getD (p.get c) else p.get c := by
  induction cs generalizing p with
  | nil => exact ⟨p, rfl, fun c => (if_neg List.not_mem_nil).symm⟩
  | cons c cs ih =>
    obtain ⟨q, hq, hget⟩ := exists_override? overrides p c
    obtain ⟨r, hr, hrest⟩ := ih q
    refine ⟨r, ?_, fun c' => ?_⟩
    · rw [List.foldlM_cons, hq]
      exact hr
    · rw [hrest, hget]
      by_cases hc : c' = c
      · subst hc
        rw [if_pos rfl, if_pos List.mem_cons_self]
        split
        · -- a category that comes twice has its color already
          cases overrides.color? c' <;> rfl
        · rfl
      · rw [if_neg hc]
        simp only [List.mem_cons, hc, false_or]

/-- Resolving the overrides one by one always gives the chosen colors. -/
theorem resolve?_eq (preset : Text) :
    resolve? preset overrides = some (resolve preset overrides) := by
  obtain ⟨q, hq, hget⟩ := exists_foldlM_override? overrides
    ((Preset.ofName? preset).getD default).palette Category.all
  rw [resolve?, hq]
  refine congrArg some (ByCategory.ext_get fun c => ?_)
  rw [hget, if_pos (Category.mem_all c), resolve, ByCategory.get_ofFn]
  rfl

/-! ## The colors of the categories -/

variable {overrides}

theorem get_resolve (preset : Text) (overrides : Overrides) (c : Category) :
    (resolve preset overrides).get c =
      (overrides.color? c).getD (((Preset.ofName? preset).getD default).palette.get c) := by
  rw [resolve, ByCategory.get_ofFn]
  rfl

/-- A color of an override is what the override is read as. -/
theorem color?_eq_some_iff {c : Category} {color : Color} :
    overrides.color? c = some color ↔
      ∃ t, overrides.get c = some t ∧ Color.parse t = .ok color := by
  simp only [Overrides.color?, Option.bind_eq_some_iff, Color.toOption_parse_eq_some_iff]

/-- The overrides written for colors are read as these colors. -/
theorem color?_map_render (p : Palette) (c : Category) :
    Overrides.color? (p.map fun color => some color.render) c = some (p.get c) :=
  color?_eq_some_iff.2 ⟨_, ByCategory.get_map _ p c, Color.parse_render _⟩

/-- The preset that is chosen has the given name, up to the blanks around it and the case of ASCII
letters, or is the calm one if no preset has. A category has the color of its override if this is
set and is a color, and otherwise the color of the chosen preset. Another override for one category
leaves the colors of the others as they are. The written forms of the resolved colors, taken as
overrides, are resolved to the same colors, whatever the preset is. -/
theorem resolve_exact (preset : Text) (overrides : Overrides) :
    ∃ (p : Palette) (chosen : Preset),
      resolve? preset overrides = some p ∧ resolve preset overrides = p ∧
      (∃ core, preset.IsTrimmed core ∧
        ((∀ q : Preset, q.name.EqIgnoringCase core ↔ q = chosen) ∨
          (∀ q : Preset, ¬ q.name.EqIgnoringCase core) ∧ chosen = .calm)) ∧
      (∀ c, (∃ t, overrides.get c = some t ∧ Color.parse t = .ok (p.get c)) ∨
        (∀ t color, overrides.get c = some t → Color.parse t ≠ .ok color) ∧
          p.get c = chosen.palette.get c) ∧
      (∀ c o, ∃ q, resolve? preset (overrides.set c o) = some q ∧
        ∀ c', c' ≠ c → q.get c' = p.get c') ∧
      ∀ other, resolve? other (p.map fun color => some color.render) = some p := by
  refine ⟨resolve preset overrides, (Preset.ofName? preset).getD default,
    resolve?_eq overrides preset, rfl, ⟨preset.trim, Text.isTrimmed_trim preset, ?_⟩, fun c => ?_,
    fun c o => ?_, fun other => ?_⟩
  · cases hname : Preset.ofName? preset with
    | none => exact Or.inr ⟨Preset.ofName?_eq_none_iff.1 hname, rfl⟩
    | some chosen =>
      refine Or.inl fun q => ?_
      rw [← Preset.ofName?_eq_some_iff, hname, Option.some_inj]
      exact eq_comm
  · rw [get_resolve]
    cases hcolor : overrides.color? c with
    | some color => exact Or.inl (color?_eq_some_iff.1 hcolor)
    | none =>
      refine Or.inr ⟨fun t color ht hparse => ?_, rfl⟩
      have hsome := color?_eq_some_iff.2 ⟨t, ht, hparse⟩
      rw [hcolor] at hsome
      cases hsome
  · refine ⟨_, resolve?_eq _ preset, fun c' hc => ?_⟩
    have hother : Overrides.color? (overrides.set c o) c' = overrides.color? c' := by
      rw [Overrides.color?, ByCategory.get_set, if_neg hc, Overrides.color?]
    rw [get_resolve, get_resolve, hother]
  · rw [resolve?_eq]
    refine congrArg some (ByCategory.ext_get fun c => ?_)
    rw [get_resolve, color?_map_render, Option.getD_some]

/-- An override that is no color beside one that is, over a preset named in small letters. -/
theorem resolve_muted_with_overrides :
    (resolve " muted".toList ⟨some "red".toList, some "#0AF".toList, none, none⟩).get .variant =
        ⟨0x9C, 0xA3, 0xAF, 0xFF⟩ ∧
      (resolve " muted".toList ⟨some "red".toList, none, none, none⟩).get .variant =
        ⟨0x9C, 0xA3, 0xAF, 0xFF⟩ := by
  obtain ⟨p, chosen, -, rfl, -, -, hset, -⟩ :=
    resolve_exact " muted".toList ⟨some "red".toList, some "#0AF".toList, none, none⟩
  have hvariant : (resolve " muted".toList ⟨some "red".toList, some "#0AF".toList, none, none⟩).get
      .variant = ⟨0x9C, 0xA3, 0xAF, 0xFF⟩ := by decide
  obtain ⟨q, hq, hothers⟩ := hset .important none
  obtain rfl := Option.some.inj (hq.symm.trans (resolve?_eq _ _))
  exact ⟨hvariant, (hothers .variant (by decide)).trans hvariant⟩

end Palette

end ClassHighlight
