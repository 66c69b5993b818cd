import Mathlib.Data.List.Induction
import ClassHighlight.ClassString.Nesting
import ClassHighlight.Proofs.Source.Escape
import ClassHighlight.Text.Blank

/-!
# What a scan of a class list knows

The scan carries its state from one character to the next. Its escapes are those that a look back
over the bytes gives, and its quotes are open within brackets only, so that a blank outside
brackets takes it back to the state at the start of a list. Only an opening bracket leads into
brackets and only a closing one out of them.
-/

namespace ClassHighlight

namespace Nesting

/-- The state after a text. -/
def after (n : Nesting) (t : Text) : Nesting :=
  t.foldl step n

@[simp] theorem after_nil (n : Nesting) : n.after [] = n := rfl

@[simp] theorem after_cons (n : Nesting) (c : Char) (t : Text) :
    n.after (c :: t) = (n.step c).after t := rfl

theorem after_append (n : Nesting) (s t : Text) : n.after (s ++ t) = (n.after s).after t :=
  List.foldl_append

theorem after_concat (n : Nesting) (t : Text) (c : Char) : n.after (t ++ [c]) = (n.after t).step c :=
  after_append n t [c]

variable {n : Nesting} {c : Char}

theorem isOutside_iff : n.isOutside = true ↔ n.depth = 0 :=
  beq_iff_eq

theorem isInside_iff : n.isOutside = false ↔ 0 < n.depth := by
  rw [← Bool.not_eq_true, isOutside_iff, Nat.pos_iff_ne_zero]

/-! ## One step -/

theorem escaped_step (n : Nesting) (c : Char) : (n.step c).escaped = (c == '\\' && !n.escaped) := by
  unfold step
  split
  · rfl
  · repeat' split
    all_goals rfl

/-- What a step does to the brackets and the quote: nothing within a quote but to end it, nothing
at an escaped character, and else it goes by the character. -/
theorem step_cases (n : Nesting) (c : Char) :
    (n.quote ≠ none ∧ (n.step c).depth = n.depth) ∨
      (n.quote = none ∧ n.escaped = true ∧
        (n.step c).depth = n.depth ∧ (n.step c).quote = none) ∨
      (n.quote = none ∧ n.escaped = false ∧ c = '[' ∧
        (n.step c).depth = n.depth + 1 ∧ (n.step c).quote = none) ∨
      (n.quote = none ∧ n.escaped = false ∧ c = ']' ∧
        (n.step c).depth = n.depth - 1 ∧ (n.step c).quote = none) ∨
      (n.quote = none ∧ n.escaped = false ∧ c ≠ '[' ∧ c ≠ ']' ∧
        (n.step c).depth = n.depth ∧ (n.depth = 0 → (n.step c).quote = none)) := by
  cases hquote : n.quote with
  | some q =>
    left
    simp [step, hquote]
  | none =>
    right
    cases hescaped : n.escaped with
    | true =>
      left
      simp [step, hquote, hescaped]
    | false =>
      right
      by_cases hopen : c = '['
      · left
        simp [step, hquote, hescaped, hopen]
      · right
        by_cases hclose : c = ']'
        · left
          simp [step, hquote, hescaped, hclose]
        · right
          by_cases hout : n.isOutside = true
          · simp [step, hquote, hescaped, hopen, hclose, hout]
          · have hpos : n.depth ≠ 0 := fun hzero => hout (isOutside_iff.2 hzero)
            simp [step, hquote, hescaped, hopen, hclose, hout, hpos]

/-- Only an opening bracket that is not escaped leads into brackets. -/
theorem eq_of_enters (h : n.isOutside = true) (hnext : (n.step c).isOutside = false) :
    c = '[' ∧ n.escaped = false := by
  rw [isOutside_iff] at h
  rw [isInside_iff] at hnext
  rcases step_cases n c with hquoted | hescaped | hopen | hclose | hplain
  · omega
  · omega
  · exact ⟨hopen.2.2.1, hopen.2.1⟩
  · omega
  · omega

/-- Only a closing bracket leads out of brackets. -/
theorem eq_of_leaves (h : n.isOutside = false) (hnext : (n.step c).isOutside = true) :
    c = ']' := by
  rw [isInside_iff] at h
  rw [isOutside_iff] at hnext
  rcases step_cases n c with hquoted | hescaped | hopen | hclose | hplain
  · omega
  · omega
  · omega
  · exact hclose.2.2.1
  · omega

/-- It is neither escaped nor quoted. -/
theorem free_of_leaves (h : n.isOutside = false) (hnext : (n.step c).isOutside = true) :
    n.escaped = false ∧ n.quote = none := by
  rw [isInside_iff] at h
  rw [isOutside_iff] at hnext
  rcases step_cases n c with hquoted | hescaped | hopen | hclose | hplain
  · omega
  · omega
  · omega
  · exact ⟨hclose.2.1, hclose.1⟩
  · omega

/-! ## Quotes -/

/-- Quotes are open within brackets only. -/
def QuotesInside (n : Nesting) : Prop :=
  n.depth = 0 → n.quote = none

theorem QuotesInside.isInside (h : n.QuotesInside) {q : Quote} (hquote : n.quote = some q) :
    n.isOutside = false := by
  rw [isInside_iff]
  apply Nat.pos_of_ne_zero
  intro hzero
  rw [h hzero] at hquote
  cases hquote

theorem QuotesInside.step (h : n.QuotesInside) (c : Char) : (n.step c).QuotesInside := by
  intro hzero
  rcases step_cases n c with hquoted | hescaped | hopen | hclose | hplain
  · -- within a quote the depth stays, so the quote would have been outside before
    exact absurd (h (by omega)) hquoted.1
  · exact hescaped.2.2.2
  · exact hopen.2.2.2.2
  · exact hclose.2.2.2.2
  · exact hplain.2.2.2.2.2 (by omega)

/-- An opening bracket that is not escaped is read within brackets. -/
theorem isOutside_step_bracket (h : n.QuotesInside) (hescaped : n.escaped = false) :
    (n.step '[').isOutside = false := by
  rw [isInside_iff]
  rcases step_cases n '[' with hquoted | hescaped' | hopen | hclose | hplain
  · have hpos : n.depth ≠ 0 := fun hzero => hquoted.1 (h hzero)
    omega
  · rw [hescaped] at hescaped'
    cases hescaped'.2.1
  · omega
  · exact absurd hclose.2.2.1 (by decide)
  · exact absurd rfl hplain.2.2.1

/-- A blank outside brackets ends all that the scan remembers. -/
theorem step_blank (h : n.QuotesInside) (hout : n.isOutside = true) (hblank : isBlank c = true) :
    n.step c = start := by
  have hplain : c ≠ '\\' ∧ c ≠ '[' ∧ c ≠ ']' := by
    refine ⟨?_, ?_, ?_⟩
    all_goals
      rintro rfl
      exact absurd hblank (by decide)
  have hzero : n.depth = 0 := isOutside_iff.1 hout
  unfold step
  simp [h hzero, hplain, hout, hzero, start]

/-! ## A whole text -/

/-- The escapes of a scan behind some text are those of a look back. -/
theorem escaped_after {before : Text}
    (h : n.escaped = isEscaped (Text.bytes before) (Text.byteLength before)) (t : Text) :
    (n.after t).escaped =
      isEscaped (Text.bytes (before ++ t)) (Text.byteLength (before ++ t)) := by
  induction t generalizing n before with
  | nil =>
    rw [List.append_nil]
    exact h
  | cons c rest ih =>
    have hnext : (n.step c).escaped =
        isEscaped (Text.bytes (before ++ [c])) (Text.byteLength (before ++ [c])) := by
      rw [escaped_step, isEscaped_concat, h]
    have hrest := ih hnext
    rw [List.append_assoc] at hrest
    exact hrest

theorem escaped_after_start (t : Text) :
    (start.after t).escaped = isEscaped (Text.bytes t) (Text.byteLength t) :=
  @escaped_after start [] rfl t

/-- The escapes of a scan are also those of a look back in a longer text. -/
theorem escaped_after_front {t front behind : Text} (h : t = front ++ behind) :
    (start.after front).escaped = isEscaped (Text.bytes t) (Text.byteLength front) := by
  rw [escaped_after_start, h, isEscaped_behind]

theorem QuotesInside.after (h : n.QuotesInside) (t : Text) : (n.after t).QuotesInside := by
  induction t generalizing n with
  | nil => exact h
  | cons c rest ih => exact ih (h.step c)

theorem quotesInside_after_start (t : Text) : (start.after t).QuotesInside :=
  QuotesInside.after (fun _ => rfl) t

/-- A blank at the start of a list leaves the scan as it is. -/
theorem after_cons_of_blank (hblank : isBlank c = true) (t : Text) :
    start.after (c :: t) = start.after t := by
  rw [after_cons, step_blank (fun _ => rfl) rfl hblank]

/-- At a blank outside brackets the scan goes on as at the start of a list. -/
theorem after_of_blank {t : Text} (hquotes : n.QuotesInside) (hout : n.isOutside = true)
    (hblank : t.head?.any isBlank = true) : n.after t = start.after t := by
  cases t with
  | nil => cases hblank
  | cons c rest => rw [after_cons, step_blank hquotes hout hblank, after_cons_of_blank hblank]

/-- No part of a text that starts with it and is not empty leads the scan out of brackets. -/
def StaysInside (n : Nesting) (t : Text) : Prop :=
  ∀ first later, t = first ++ later → first ≠ [] → (n.after first).isOutside = false

theorem StaysInside.append_left {t later : Text} (h : n.StaysInside (t ++ later)) :
    n.StaysInside t := by
  intro first rest hsplit hne
  exact h first (rest ++ later) (by rw [hsplit, List.append_assoc]) hne

/-- Behind each character that is read on the way the scan is within brackets, and in front of it
too, unless it is the bracket that opens. -/
theorem StaysInside.step {t later : Text} (h : n.StaysInside (t ++ c :: later))
    (hout : n.isOutside = true) :
    ((n.after t).step c).isOutside = false ∧ ((n.after t).isOutside = false ∨ c = '[') := by
  have hnext : ((n.after t).step c).isOutside = false := by
    have hread := h (t ++ [c]) later (by rw [List.append_assoc]; rfl) (by simp)
    rwa [after_concat] at hread
  refine ⟨hnext, ?_⟩
  cases t with
  | nil => exact Or.inr (eq_of_enters hout hnext).1
  | cons d t => exact Or.inl (h (d :: t) (c :: later) rfl (List.cons_ne_nil _ _))

/-- The scan reads a text within brackets, and the character behind it leads out of them. -/
structure Closes (n : Nesting) (t : Text) (c : Char) : Prop where
  /-- In front of each character, and at the end of the text, the scan is within brackets. -/
  inside : ∀ first later, t = first ++ later → (n.after first).isOutside = false
  /-- Behind the character it is not. -/
  leaves : ((n.after t).step c).isOutside = true

theorem Closes.isInside {t : Text} (h : n.Closes t c) : n.isOutside = false :=
  h.inside [] t rfl

theorem Closes.cons {t : Text} {d : Char} (h : (n.step d).Closes t c) (hin : n.isOutside = false) :
    n.Closes (d :: t) c := by
  refine ⟨?_, h.leaves⟩
  intro first later hsplit
  cases first with
  | nil => exact hin
  | cons d' first =>
    obtain ⟨rfl, hrest⟩ := List.cons.inj hsplit
    exact h.inside first later hrest

/-- A scan that starts outside brackets reads a text up to the last place outside them, and from
there on it stays within brackets. -/
theorem exists_last_outside (h : n.isOutside = true) (t : Text) :
    ∃ closed rest, t = closed ++ rest ∧ (n.after closed).isOutside = true ∧
      (n.after closed).StaysInside rest := by
  induction t using List.reverseRecOn with
  | nil =>
    refine ⟨[], [], rfl, h, ?_⟩
    intro first later hsplit hne
    exact absurd (List.append_eq_nil_iff.1 hsplit.symm).1 hne
  | append_singleton t c ih =>
    by_cases hend : (n.after (t ++ [c])).isOutside = true
    · -- the last place is the end
      refine ⟨t ++ [c], [], (List.append_nil _).symm, hend, ?_⟩
      intro first later hsplit hne
      exact absurd (List.append_eq_nil_iff.1 hsplit.symm).1 hne
    · rcases ih with ⟨closed, rest, rfl, hclosed, hrest⟩
      refine ⟨closed, rest ++ [c], List.append_assoc _ _ _, hclosed, ?_⟩
      intro first later hsplit hne
      rcases List.eq_nil_or_concat later with rfl | ⟨later, d, rfl⟩
      · rw [← after_append, ← List.append_nil first, ← hsplit, ← List.append_assoc]
        simpa using hend
      · -- a part that leaves out the last character was there before
        rw [List.concat_eq_append, ← List.append_assoc] at hsplit
        exact hrest first later (List.append_inj_left' hsplit rfl) hne

end Nesting

end ClassHighlight
