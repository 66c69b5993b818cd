import ClassHighlight.Proofs.Source.Code

/-!
# Literals as quoted regions of the comment scan

The comment scan passes through quoted regions on its way. Its quote tracker is inside quotes
exactly behind the first delimiter of such a region, up to the last one. A walk that starts in code
agrees with the tracker, so the literals of a call in code are the quoted regions between its
parentheses, and no comment touches them.
-/

namespace ClassHighlight

namespace Region

/-! ## Quoted regions and the tracker -/

section Tracker

variable {bs : List UInt8} {q : Quote} {s : Span} {closed : Bool} {j : Nat}

/-- A quoted region of a document is not empty and ends within it. -/
theorem span_of_mem_all (h : .quoted q s closed ∈ all (Mark.ofBytes bs)) :
    s.start < s.stop ∧ s.stop ≤ bs.length ∧ (closed = true → s.start + 1 < s.stop) ∧
      (closed = false → s.stop = bs.length) := by
  have hstarts := (CommentMap.passes_all bs).starting h
  simp only [span] at hstarts
  rcases starting?_quoted hstarts with ⟨-, hlt, hle, -, -, hclosed, hunclosed⟩
  exact ⟨hlt, hle, fun hc => (hclosed hc).1, fun hc => (hunclosed hc).1⟩

/-- The tracker is inside quotes exactly within the quoted regions, behind their first delimiter. -/
theorem openAt_eq_some_iff (hj : j < bs.length) :
    openAt bs (CommentMap.ofMarks (Mark.ofBytes bs)).contains j = some q ↔
      ∃ s closed, .quoted q s closed ∈ all (Mark.ofBytes bs) ∧ s.start < j ∧ j < s.stop := by
  have hstanding := CommentMap.standing_contains hj
  constructor
  · intro hopen
    rw [hopen] at hstanding
    cases hstanding with
    | inside hs hlt hstop => exact ⟨_, _, hs, hlt, hstop⟩
  · rintro ⟨s, closed, hs, hlt, hstop⟩
    have hin : (Region.quoted q s closed).span.contains j = true :=
      Span.contains_iff.2 ⟨Nat.le_of_lt hlt, hstop⟩
    generalize openAt bs (CommentMap.ofMarks (Mark.ofBytes bs)).contains j = state at hstanding ⊢
    -- the byte stands in this region and in no other one
    cases hstanding with
    | code _ hout =>
      rw [hout _ hs] at hin
      cases hin
    | comment hs' hin' =>
      have := (CommentMap.passes_all bs).eq_of_contains hs hs' hin hin'
      cases this
    | opening hs' hstart =>
      have hspan := span_of_mem_all hs'
      have := (CommentMap.passes_all bs).eq_of_contains hs hs' hin
        (Span.contains_iff.2 ⟨Nat.le_of_eq hstart, by simp only [span]; omega⟩)
      cases this
      omega
    | inside hs' hlt' hstop' =>
      have := (CommentMap.passes_all bs).eq_of_contains hs hs' hin
        (Span.contains_iff.2 ⟨Nat.le_of_lt hlt', hstop'⟩)
      cases this
      rfl

/-- The tracker is outside quotes where a quoted region starts. -/
theorem openAt_start (h : .quoted q s closed ∈ all (Mark.ofBytes bs)) :
    openAt bs (CommentMap.ofMarks (Mark.ofBytes bs)).contains s.start = none := by
  have hspan := span_of_mem_all h
  rw [Option.eq_none_iff_forall_ne_some]
  intro q' hopen
  rcases (openAt_eq_some_iff (by omega)).1 hopen with ⟨s', closed', hs', hlt, hstop⟩
  have hsame := (CommentMap.passes_all bs).eq_of_contains h hs' (j := s.start)
    (Span.contains_iff.2 ⟨Nat.le_refl _, hspan.1⟩)
    (Span.contains_iff.2 ⟨Nat.le_of_lt hlt, hstop⟩)
  cases hsame
  omega

/-- The tracker is outside quotes behind a quoted region. -/
theorem openAt_stop (h : .quoted q s closed ∈ all (Mark.ofBytes bs)) (hlt : s.stop < bs.length) :
    openAt bs (CommentMap.ofMarks (Mark.ofBytes bs)).contains s.stop = none := by
  have hspan := span_of_mem_all h
  rw [Option.eq_none_iff_forall_ne_some]
  intro q' hopen
  rcases (openAt_eq_some_iff hlt).1 hopen with ⟨s', closed', hs', hstart, hstop⟩
  have hne : Region.quoted q s closed ≠ .quoted q' s' closed' := by
    rintro heq
    cases heq
    omega
  have hapart := or_swap_of_pairwise (CommentMap.passes_all bs).pairwise h hs' hne
  simp only [span] at hapart
  omega

/-- A quoted region starts right behind a byte at which the tracker is outside quotes. -/
theorem start_of_openAt (hj : j + 1 < bs.length)
    (hopen : openAt bs (CommentMap.ofMarks (Mark.ofBytes bs)).contains j = none)
    (hnext : openAt bs (CommentMap.ofMarks (Mark.ofBytes bs)).contains (j + 1) = some q) :
    ∃ s closed, .quoted q s closed ∈ all (Mark.ofBytes bs) ∧ s.start = j ∧ j + 1 < s.stop := by
  rcases (openAt_eq_some_iff hj).1 hnext with ⟨s, closed, hs, hstart, hstop⟩
  refine ⟨s, closed, hs, ?_, hstop⟩
  by_contra hne
  -- otherwise the byte before would be inside quotes as well
  have hbefore := (openAt_eq_some_iff (j := j) (by omega)).2 ⟨s, closed, hs, by omega, by omega⟩
  rw [hopen] at hbefore
  cases hbefore

end Tracker

/-! ## Literals of a walk in code -/

/-- The literals of a walk that starts in code are the closed quoted regions behind its start. -/
theorem isLiteral_iff {bs : List UInt8} {start : Nat} {q : Quote} {body : Span}
    (hcode : openAt bs (CommentMap.ofMarks (Mark.ofBytes bs)).contains start = none)
    (hend : body.stop + 1 < bs.length) :
    IsLiteral bs (CommentMap.ofMarks (Mark.ofBytes bs)) start q body ↔
      start < body.start ∧
        .quoted q ⟨body.start - 1, body.stop + 1⟩ true ∈ all (Mark.ofBytes bs) := by
  have hagree : ∀ i, start ≤ i → i ≤ bs.length →
      openSince bs (CommentMap.ofMarks (Mark.ofBytes bs)) start i =
        openAt bs (CommentMap.ofMarks (Mark.ofBytes bs)).contains i := by
    intro i hi hle
    exact openSince_eq_openAt hcode hi hle
  constructor
  · intro hbody
    have hafter := hbody.after
    have hordered := hbody.ordered
    have houtside := hbody.outside
    rw [hagree _ (by omega) (by omega)] at houtside
    have hfirst := hbody.within body.start (Nat.le_refl _) hordered
    rw [hagree _ (by omega) (by omega)] at hfirst
    have hlast := hbody.within body.stop hordered (Nat.le_refl _)
    rw [hagree _ (by omega) (by omega)] at hlast
    have hclosed := hbody.closed
    rw [hagree _ (by omega) (by omega)] at hclosed
    -- a region starts at the first delimiter
    obtain ⟨s, closed, hs, hstart, hlt⟩ := start_of_openAt (q := q) (j := body.start - 1)
      (by omega) houtside (by rw [show body.start - 1 + 1 = body.start by omega]; exact hfirst)
    -- it does not end within the body
    have hnotEarlier : body.stop < s.stop := by
      by_contra hle
      have hout := openAt_stop hs (by omega)
      have hin := hbody.within s.stop (by omega) (by omega)
      rw [hagree _ (by omega) (by omega), hout] at hin
      cases hin
    -- and it does not reach beyond the last delimiter
    have hnotLater : s.stop ≤ body.stop + 1 := by
      by_contra hle
      have hin := (openAt_eq_some_iff hend).2 ⟨s, closed, hs, by omega, by omega⟩
      rw [hclosed] at hin
      cases hin
    have hend' : closed = true := by
      by_contra hnot
      have hunclosed := (span_of_mem_all hs).2.2.2 (by simpa using hnot)
      omega
    have hspan : s = ⟨body.start - 1, body.stop + 1⟩ := by
      cases s
      simp only at hstart hnotEarlier hnotLater ⊢
      congr 1
      omega
    rw [hspan, hend'] at hs
    exact ⟨hafter, hs⟩
  · rintro ⟨hafter, hs⟩
    have hspan := span_of_mem_all hs
    have hlong := hspan.2.2.1 rfl
    simp only at hspan hlong
    refine ⟨hafter, ?_, ?_, ?_, ?_, by omega⟩
    · rw [hagree _ (by omega) (by omega)]
      exact openAt_start hs
    · intro i hi hle
      rw [hagree _ (by omega) (by omega)]
      exact (openAt_eq_some_iff (by omega)).2 ⟨_, _, hs, by simp only; omega, by simp only; omega⟩
    · rw [hagree _ (by omega) (by omega)]
      exact openAt_stop hs hend
    · -- a comment would overlap with the region
      rw [← Bool.not_eq_true]
      intro hin
      have hout := CommentMap.openAt_of_contains hin
      have hin' := (openAt_eq_some_iff (j := body.start) (by omega)).2
        ⟨_, _, hs, by simp only; omega, by simp only; omega⟩
      rw [hout] at hin'
      cases hin'

end Region

namespace Source

/-! ## Literals of a call in code -/

/-- The literal that a region is for a call: a closed quoted region between its parentheses. -/
def literalOf? (source : Source) (call : Call) : Region → Option Candidate
  | .quoted q s true =>
    if call.covers s then
      some ⟨source.slice ⟨s.start + 1, s.stop - 1⟩, s.start + 1, .argument, q⟩
    else
      none
  | _ => none

section Calls

variable {t : Text} {c : Call} {l : Candidate}

theorem literalOf?_eq_some {r : Region} :
    (ofText t).literalOf? c r = some l ↔ ∃ q s, r = .quoted q s true ∧ c.covers s = true ∧
      l = ⟨(ofText t).slice ⟨s.start + 1, s.stop - 1⟩, s.start + 1, .argument, q⟩ := by
  constructor
  · intro h
    unfold literalOf? at h
    split at h
    · split at h
      · rename_i q s hcovers
        exact ⟨q, s, rfl, hcovers, (Option.some.inj h).symm⟩
      · cases h
    · cases h
  · rintro ⟨q, s, rfl, hcovers, rfl⟩
    show (if c.covers s then _ else _) = _
    rw [if_pos hcovers]

/-- The literals of a call in code are the closed quoted regions between its parentheses. -/
theorem mem_literals_iff_quoted (hc : c ∈ (ofText t).calls) (hcode : (ofText t).IsCode c.start) :
    l ∈ (ofText t).literals c ↔
      ∃ q s, .quoted q s true ∈ Region.all (Mark.ofBytes (Text.bytes t)) ∧ c.covers s = true ∧
        l = ⟨(ofText t).slice ⟨s.start + 1, s.stop - 1⟩, s.start + 1, .argument, q⟩ := by
  have hat := (isCallAt_of_mem hc).1
  have hbehind := hat.behind
  have hle := hat.stop_spec.2.1
  have hopen := hat.openAt_argsStart hcode.2 (by omega) (Nat.le_refl _)
  rw [mem_literals hc]
  constructor
  · rintro ⟨q, body, hbody, hbefore, rfl⟩
    have hregion := ((Region.isLiteral_iff hopen (by omega)).1 hbody).2
    have hafter := hbody.after
    refine ⟨q, _, hregion, Call.covers_iff.2 ⟨by simp only; omega, hbefore⟩, ?_⟩
    simp only [show body.start - 1 + 1 = body.start by omega, Nat.add_sub_cancel]
  · rintro ⟨q, s, hs, hcovers, rfl⟩
    rw [Call.covers_iff] at hcovers
    have hlong := (Region.span_of_mem_all hs).2.2.1 rfl
    have hspan : (⟨s.start + 1 - 1, s.stop - 1 + 1⟩ : Span) = s := by
      rw [Nat.add_sub_cancel, Nat.sub_add_cancel (by omega)]
    refine ⟨q, ⟨s.start + 1, s.stop - 1⟩, ?_, by simp only; omega, rfl⟩
    rw [← hspan] at hs
    exact (Region.isLiteral_iff hopen (by simp only; omega)).2 ⟨by simp only; omega, hs⟩

/-- The regions that are literals of a call are in the order of the document. -/
theorem pairwise_base_literalOf? (t : Text) (c : Call) :
    ((Region.all (ofText t).marks).filterMap ((ofText t).literalOf? c)).Pairwise
      fun a b => a.base < b.base := by
  rw [List.pairwise_filterMap]
  apply (List.Pairwise.and_mem.1 (CommentMap.passes_all (Text.bytes t)).pairwise).imp
  rintro r r' ⟨hr, -, hapart⟩ l hl l' hl'
  rcases literalOf?_eq_some.1 hl with ⟨q, s, rfl, -, rfl⟩
  rcases literalOf?_eq_some.1 hl' with ⟨q', s', rfl, -, rfl⟩
  have hspan := Region.span_of_mem_all hr
  simp only [Region.span] at hapart ⊢
  omega

/-- A quoted region that reaches between the parentheses of a call in code lies between them, and is
closed there. -/
theorem quoted_within (hc : c ∈ (ofText t).calls) (hcode : (ofText t).IsCode c.start) {q : Quote}
    {s : Span} {closed : Bool} (hs : .quoted q s closed ∈ Region.all (ofText t).marks)
    (hbefore : s.start + 1 < c.stop) (hbehind : c.argsStart < s.stop) :
    closed = true ∧ c.covers s = true := by
  have hat := (isCallAt_of_mem hc).1
  have hspan := Region.span_of_mem_all hs
  have hparen := hat.behind
  rcases hat.stop_spec with ⟨hlt, hle, -, hclose⟩
  rw [openSince_eq_openAt_of_isCode hc hcode (by omega) (by omega)] at hclose
  have hopen := hat.openAt_argsStart hcode.2 (by omega) (Nat.le_refl _)
  -- at both parentheses the tracker is outside quotes
  have hstart : c.argsStart ≤ s.start := by
    by_contra hnot
    have hin := (Region.openAt_eq_some_iff (j := c.argsStart) (by omega)).2
      ⟨s, closed, hs, by omega, by omega⟩
    have := hopen.symm.trans hin
    cases this
  have hstop : s.stop < c.stop := by
    by_contra hnot
    have hin := (Region.openAt_eq_some_iff (j := c.stop - 1) (by omega)).2
      ⟨s, closed, hs, by omega, by omega⟩
    have := hclose.symm.trans hin
    cases this
  refine ⟨?_, Call.covers_iff.2 ⟨hstart, hstop⟩⟩
  by_contra hnot
  have hunclosed := hspan.2.2.2 (by simpa using hnot)
  omega

/-- No comment touches a literal of a call in code or its delimiters. -/
theorem apart_of_comment (hc : c ∈ (ofText t).calls) (hcode : (ofText t).IsCode c.start)
    (hl : l ∈ (ofText t).literals c) {r : Span} (hr : r ∈ (ofText t).comments.ranges.toList) :
    l.span.stop < r.start ∨ r.stop < l.span.start := by
  have hat := (isCallAt_of_mem hc).1
  have hbehind := hat.behind
  have hle := hat.stop_spec.2.1
  have hopen := hat.openAt_argsStart hcode.2 (by omega) (Nat.le_refl _)
  rcases (mem_literals hc).1 hl with ⟨q, body, hbody, hbefore, rfl⟩
  -- the literal and the comment are two regions of one scan
  have hregion := ((Region.isLiteral_iff hopen (by omega)).1 hbody).2
  have hafter := hbody.after
  have hapart := or_swap_of_pairwise (CommentMap.passes_all (Text.bytes t)).pairwise hregion
    (CommentMap.mem_ranges.1 hr) (by simp)
  rw [(isDelimited_of_isLiteral hbody).span_eq]
  simp only [Region.span] at hapart ⊢
  omega

/-- The literals of a call in code are the quoted regions that the comment scan passes through
between the parentheses of the call, in the same order. No quoted region crosses a parenthesis,
and no comment touches a literal or its delimiters. -/
theorem literals_eq_quoted (hc : c ∈ (ofText t).calls) (hcode : (ofText t).IsCode c.start) :
    (ofText t).literals c = (Region.all (ofText t).marks).filterMap ((ofText t).literalOf? c) ∧
    (∀ q s closed, .quoted q s closed ∈ Region.all (ofText t).marks →
      s.start + 1 < c.stop → c.argsStart < s.stop → closed = true ∧ c.covers s = true) ∧
    ∀ l ∈ (ofText t).literals c, ∀ r ∈ (ofText t).comments.ranges.toList,
      l.span.stop < r.start ∨ r.stop < l.span.start := by
  constructor
  · -- both lists are in the order of the document, so their members tell
    apply eq_of_ascending Candidate.base (pairwise_base_literals hc) (pairwise_base_literalOf? t c)
    intro l
    rw [mem_literals_iff_quoted hc hcode, List.mem_filterMap]
    constructor
    · rintro ⟨q, s, hs, hcovers, hl⟩
      exact ⟨_, hs, literalOf?_eq_some.2 ⟨q, s, rfl, hcovers, hl⟩⟩
    · rintro ⟨r, hr, hl⟩
      rcases literalOf?_eq_some.1 hl with ⟨q, s, rfl, hcovers, hl⟩
      exact ⟨q, s, hr, hcovers, hl⟩
  constructor
  · intro q s closed hs hbefore hbehind
    exact quoted_within hc hcode hs hbefore hbehind
  · intro l hl r hr
    exact apart_of_comment hc hcode hl hr

/-- Quotes in comments open no literal, and an escaped quote closes none. -/
theorem literals_between_comments :
    ⟨.cn, "'a' /* \"x) */, \"b\\\"'c\"".toList, 11, 8, 34⟩ ∈
        (ofText "// it's\ncn('a' /* \"x) */, \"b\\\"'c\")".toList).calls ∧
    (ofText "// it's\ncn('a' /* \"x) */, \"b\\\"'c\")".toList).IsCode 8 ∧
    ((ofText "// it's\ncn('a' /* \"x) */, \"b\\\"'c\")".toList).literals
        ⟨.cn, "'a' /* \"x) */, \"b\\\"'c\"".toList, 11, 8, 34⟩ =
      (Region.all (ofText "// it's\ncn('a' /* \"x) */, \"b\\\"'c\")".toList).marks).filterMap
        ((ofText "// it's\ncn('a' /* \"x) */, \"b\\\"'c\")".toList).literalOf?
          ⟨.cn, "'a' /* \"x) */, \"b\\\"'c\"".toList, 11, 8, 34⟩)) ∧
    .quoted .double ⟨26, 33⟩ true ∈
        Region.all (ofText "// it's\ncn('a' /* \"x) */, \"b\\\"'c\")".toList).marks ∧
    Call.covers ⟨.cn, "'a' /* \"x) */, \"b\\\"'c\"".toList, 11, 8, 34⟩ ⟨26, 33⟩ := by
  have hc : ⟨.cn, "'a' /* \"x) */, \"b\\\"'c\"".toList, 11, 8, 34⟩ ∈
      (ofText "// it's\ncn('a' /* \"x) */, \"b\\\"'c\")".toList).calls := by
    decide +kernel
  have hcode : (ofText "// it's\ncn('a' /* \"x) */, \"b\\\"'c\")".toList).IsCode 8 := by
    decide +kernel
  have hregion : .quoted .double ⟨26, 33⟩ true ∈
      Region.all (ofText "// it's\ncn('a' /* \"x) */, \"b\\\"'c\")".toList).marks := by
    decide +kernel
  obtain ⟨hliterals, hcrosses, -⟩ := literals_eq_quoted hc hcode
  exact ⟨hc, hcode, hliterals, hregion,
    (hcrosses _ _ _ hregion (by decide) (by decide)).2⟩

end Calls

end Source

end ClassHighlight
