import Mathlib.Data.List.DropRight
import ClassHighlight.Text.Blank

/-!
# Trimmed texts

A text is trimmed to its one part that has blanks only on its two sides, and neither starts nor ends
with a blank itself. Of a text of blanks nothing is left.
-/

namespace ClassHighlight

namespace Text

/-- A part of a text is all but the blanks at the two ends of the text. -/
structure IsTrimmed (t part : Text) : Prop where
  /-- Only blanks stand in front of it and behind it. -/
  around : ∃ front behind, t = front ++ part ++ behind ∧ (∀ c ∈ front, isBlank c = true) ∧
    ∀ c ∈ behind, isBlank c = true
  /-- It starts with no blank. -/
  head : ∀ c ∈ part.head?, isBlank c = false
  /-- It ends with no blank. -/
  last : ∀ c ∈ part.getLast?, isBlank c = false

variable {t part : Text}

/-- No blanks are dropped in front of what starts with no blank. -/
theorem dropWhile_isBlank (h : ∀ c ∈ part.head?, isBlank c = false) :
    part.dropWhile isBlank = part := by
  cases part with
  | nil => rfl
  | cons c rest =>
    have hc : isBlank c = false := h c rfl
    rw [List.dropWhile_cons_of_neg (by simp [hc])]

theorem trim_eq (t : Text) : t.trim = (t.dropWhile isBlank).rdropWhile isBlank := rfl

/-- A text that neither starts nor ends with a blank is trimmed already. -/
theorem trim_eq_self (hhead : ∀ c ∈ t.head?, isBlank c = false)
    (hlast : ∀ c ∈ t.getLast?, isBlank c = false) : t.trim = t := by
  rw [trim_eq, dropWhile_isBlank hhead, List.rdropWhile, dropWhile_isBlank, List.reverse_reverse]
  rwa [List.head?_reverse]

/-- A text without blanks is trimmed already. -/
theorem trim_eq_self_of_forall (h : ∀ c ∈ t, isBlank c = false) : t.trim = t :=
  trim_eq_self (fun c hc => h c (List.mem_of_head? hc))
    (fun c hc => h c (List.mem_of_mem_getLast? hc))

theorem isTrimmed_trim (t : Text) : t.IsTrimmed t.trim := by
  have hfirst := List.head?_dropWhile_not isBlank t
  have hprefix := List.rdropWhile_prefix isBlank (t.dropWhile isBlank)
  rw [trim_eq]
  refine ⟨⟨t.takeWhile isBlank, (t.dropWhile isBlank).rtakeWhile isBlank, ?_, ?_, ?_⟩, ?_, ?_⟩
  · rw [List.append_assoc, List.rdropWhile_append_rtakeWhile, List.takeWhile_append_dropWhile]
  · exact fun c hc => List.mem_takeWhile_imp hc
  · exact fun c hc => List.mem_rtakeWhile_imp hc
  · intro c hc
    -- the trimmed text starts where the blanks in front of it end
    obtain ⟨rest, hrest⟩ := hprefix
    rw [← hrest, List.head?_append, Option.mem_def.1 hc] at hfirst
    exact hfirst
  · intro c hc
    obtain ⟨hne, rfl⟩ := List.mem_getLast?_eq_getLast hc
    simpa using List.rdropWhile_last_not isBlank (t.dropWhile isBlank) hne

/-- A text has one part that is all but the blanks at its two ends. -/
theorem isTrimmed_iff : t.IsTrimmed part ↔ part = t.trim := by
  constructor
  · rintro ⟨⟨front, behind, rfl, hfront, hbehind⟩, hhead, hlast⟩
    rw [trim_eq, List.append_assoc, List.dropWhile_append_of_pos hfront]
    cases part with
    | nil =>
      rw [List.nil_append, List.dropWhile_eq_nil_iff.2 hbehind]
      rfl
    | cons c rest =>
      have hstop : (c :: rest ++ behind).dropWhile isBlank = c :: rest ++ behind :=
        dropWhile_isBlank hhead
      have hback : ∀ d ∈ behind.reverse, isBlank d = true := by simpa using hbehind
      rw [hstop, List.rdropWhile, List.reverse_append, List.dropWhile_append_of_pos hback,
        dropWhile_isBlank (by rwa [List.head?_reverse]), List.reverse_reverse]
  · rintro rfl
    exact isTrimmed_trim t

end Text

end ClassHighlight
