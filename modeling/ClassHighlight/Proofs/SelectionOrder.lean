import ClassHighlight.Proofs.HighlightOrder

/-!
# Highlights around a cursor lie one behind the other

Around a cursor there is one attribute, or there are the literals of one call. Each of these ends
before the next one starts, so what was shown of one candidate holds of all that is selected: in
each category the spans ascend, and no byte belongs to two of them.
-/

namespace ClassHighlight

/-! ## Ascending spans -/

/-- One span lies before another one, and no byte belongs to both. -/
structure Span.LiesBefore (s s' : Span) : Prop where
  /-- It starts first. -/
  start : s.start < s'.start
  /-- It ends first. -/
  stop : s.stop < s'.stop
  /-- No byte that it covers is covered by the other one. -/
  apart : ∀ offset, s.contains offset = true → s'.contains offset = false

theorem Span.liesBefore_of_le {s s' : Span} (hne : s.start < s.stop) (hne' : s'.start < s'.stop)
    (hle : s.stop ≤ s'.start) : s.LiesBefore s' := by
  constructor
  · omega
  · omega
  · intro offset hin
    have hbefore := (Span.contains_iff.1 hin).2
    rw [← Bool.not_eq_true, Span.contains_iff]
    omega

/-- Spans of candidates that lie apart ascend. -/
theorem Candidate.liesBefore_of_apart {a b : Candidate} (hapart : a.span.stop < b.span.start)
    {category : Category} {s s' : Span} (hs : s ∈ (Highlights.ofCandidate a).get category)
    (hs' : s' ∈ (Highlights.ofCandidate b).get category) : s.LiesBefore s' := by
  have hfirst := (a.successive_spans category).within s hs
  have hsecond := (b.successive_spans category).within s' hs'
  exact Span.liesBefore_of_le hfirst.2.1 hsecond.2.1 (by omega)

/-- In each category the spans of a candidate ascend. -/
theorem Candidate.pairwise_liesBefore (c : Candidate) (category : Category) :
    ((Highlights.ofCandidate c).get category).Pairwise Span.LiesBefore := by
  have hsuccessive := c.successive_spans category
  apply (List.Pairwise.and_mem.1 hsuccessive.apart).imp
  intro s s' h
  obtain ⟨hs, hs', hle⟩ := h
  exact Span.liesBefore_of_le (hsuccessive.within s hs).2.1 (hsuccessive.within s' hs').2.1 hle

/-- If the selected candidates lie apart, the spans of a scan ascend in each category. -/
theorem pairwise_liesBefore_scan {t : Text} {cursor? : Option Nat} {mode : Mode}
    (hapart : ((Source.ofText t).selected mode cursor?).Pairwise
      fun a b => a.span.stop < b.span.start) (category : Category) :
    ((scan t cursor? mode).get category).Pairwise Span.LiesBefore := by
  rw [get_scan_eq_flatMap, List.pairwise_flatMap]
  constructor
  · intro c _
    exact c.pairwise_liesBefore category
  · apply hapart.imp
    intro a b hlt s hs s' hs'
    exact Candidate.liesBefore_of_apart hlt hs hs'

/-! ## Candidates around a cursor -/

namespace Source

variable {t : Text} {offset : Nat}

/-- The candidates around an offset lie apart, with a delimiter between them. -/
theorem pairwise_candidatesAt (t : Text) (offset : Nat) :
    ((ofText t).candidatesAt offset).Pairwise fun a b => a.span.stop < b.span.start := by
  unfold candidatesAt
  split
  · -- one attribute
    exact List.pairwise_singleton _ _
  · split
    · rename_i call hfound
      have hcall := Call.mem_of_mem_outermostFrom (List.mem_of_find?_eq_some hfound)
      apply (pairwise_literals hcall).imp
      intro a b hlt
      exact Nat.lt_of_succ_lt hlt
    · exact List.Pairwise.nil

theorem pairwise_selected_cursor (t : Text) (cursor? : Option Nat) :
    ((ofText t).selected .cursor cursor?).Pairwise fun a b => a.span.stop < b.span.start := by
  cases cursor? with
  | none => exact List.Pairwise.nil
  | some offset => exact pairwise_candidatesAt t offset

/-- No attribute is around an offset behind the document. -/
theorem find?_attributes_behind (h : Text.byteLength t < offset) :
    ((ofText t).attributes.find? fun c => c.encloses offset) = none := by
  rw [List.find?_eq_none]
  intro c hc hencloses
  obtain ⟨-, stop, hdelimited⟩ := isDelimited_of_mem_attributes hc
  have hwithin := hdelimited.hasAt.le_byteLength
  have hstop : offset ≤ c.base + Text.byteLength c.text := (Span.encloses_iff.1 hencloses).2
  omega

/-- No call is around an offset behind the document. -/
theorem find?_outermost_behind (h : Text.byteLength t < offset) :
    ((Call.outermost (ofText t).calls).find? fun call => call.encloses offset) = none := by
  rw [List.find?_eq_none]
  intro call hkept hencloses
  have hcall := Call.mem_of_mem_outermostFrom hkept
  have hwithin := (isCallAt_of_mem hcall).1.stop_spec.2.1
  rw [Text.length_bytes] at hwithin
  have hstop : call.start ≤ offset ∧ offset ≤ call.stop := by
    simpa [Call.encloses] using hencloses
  omega

theorem selected_cursor_behind (h : Text.byteLength t < offset) :
    (ofText t).selected .cursor (some offset) = [] := by
  show (ofText t).candidatesAt offset = []
  unfold candidatesAt
  rw [find?_attributes_behind h, find?_outermost_behind h]

end Source

/-- Around a cursor the candidates lie apart, each ending before the next one starts, and in each
category the spans ascend without overlapping. A cursor behind the document has none around it. -/
theorem cursor_highlights_ascend (t : Text) (cursor? : Option Nat) :
    (((Source.ofText t).selected .cursor cursor?).Pairwise fun a b =>
        a.span.stop < b.span.start) ∧
      (∀ category, ((scan t cursor? .cursor).get category).Pairwise Span.LiesBefore) ∧
      ∀ offset, Text.byteLength t < offset →
        ∀ category, (scan t (some offset) .cursor).get category = [] := by
  refine ⟨Source.pairwise_selected_cursor t cursor?, ?_, ?_⟩
  · intro category
    exact pairwise_liesBefore_scan (Source.pairwise_selected_cursor t cursor?) category
  · intro offset hbehind category
    rw [get_scan_eq_flatMap, Source.selected_cursor_behind hbehind]
    rfl

/-- The literals of a call, two of them beside a comment and one with an interpolation, and a cursor
one byte behind the document. -/
theorem cursor_highlights_ascend_template :
    (scan "cn(\"md:!a-[b] c\", /**/'d', `e $\x7bx\x7d[f]`)".toList (some 2) .cursor).get .utility =
        [⟨4, 13⟩, ⟨14, 15⟩, ⟨23, 24⟩, ⟨28, 29⟩, ⟨34, 37⟩] ∧
      [⟨4, 13⟩, ⟨14, 15⟩, ⟨23, 24⟩, ⟨28, 29⟩, ⟨34, 37⟩].Pairwise Span.LiesBefore ∧
      Text.byteLength "cn(\"md:!a-[b] c\", /**/'d', `e $\x7bx\x7d[f]`)".toList < 40 ∧
      (scan "cn(\"md:!a-[b] c\", /**/'d', `e $\x7bx\x7d[f]`)".toList (some 40) .cursor).get
        .utility = [] := by
  have hutility : (scan "cn(\"md:!a-[b] c\", /**/'d', `e $\x7bx\x7d[f]`)".toList
      (some 2) .cursor).get .utility = [⟨4, 13⟩, ⟨14, 15⟩, ⟨23, 24⟩, ⟨28, 29⟩, ⟨34, 37⟩] := by
    decide +kernel
  have hbehind : Text.byteLength "cn(\"md:!a-[b] c\", /**/'d', `e $\x7bx\x7d[f]`)".toList < 40 := by
    decide
  have hspans := cursor_highlights_ascend
    "cn(\"md:!a-[b] c\", /**/'d', `e $\x7bx\x7d[f]`)".toList (some 2)
  have hascend := hspans.2.1 .utility
  rw [hutility] at hascend
  exact ⟨hutility, hascend, hbehind, hspans.2.2 40 hbehind .utility⟩

end ClassHighlight
