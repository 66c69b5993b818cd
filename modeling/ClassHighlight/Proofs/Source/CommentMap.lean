import ClassHighlight.Proofs.Source.RegionWalk
import ClassHighlight.Source.CommentMap

/-!
# The comments of a document

Looking up an offset by halving agrees with looking through all comments. The comments themselves
are known without the scan that finds them: `IsCommentMap` says what a quote tracker that skips
some ranges must see for these ranges to be the comments, and `isCommentMap_iff` that the ranges of
the comment map, and no others, are such.
-/

namespace ClassHighlight

/-- Whether an offset lies in one of some ranges. -/
def coveredBy (ranges : List Span) (offset : Nat) : Bool :=
  ranges.any fun r => r.contains offset

theorem coveredBy_iff {ranges : List Span} {offset : Nat} :
    coveredBy ranges offset = true ↔ ∃ r ∈ ranges, r.start ≤ offset ∧ offset < r.stop := by
  simp only [coveredBy, List.any_eq_true, Span.contains_iff]

/-- Some ranges are the comments of a document, as a quote tracker sees them that reads the bytes
outside the ranges. -/
structure IsCommentMap (bs : List UInt8) (ranges : List Span) : Prop where
  /-- No range is empty. -/
  nonempty : ∀ r ∈ ranges, r.start < r.stop
  /-- The ranges lie within the document. -/
  inBounds : ∀ r ∈ ranges, r.stop ≤ bs.length
  /-- The ranges are in order and do not overlap. -/
  sorted : ranges.Pairwise fun a b => a.stop ≤ b.start
  /-- A range starts outside quotes with an opener, and ends as the form of the comment says. -/
  opened : ∀ r ∈ ranges, openAt bs (coveredBy ranges) r.start = none ∧
    ∃ form n, CommentForm.opener? ((Mark.ofBytes bs).drop r.start) = some (form, n) ∧
      form.EndsAt bs (r.start + n) r.stop
  /-- Outside the ranges and outside quotes there is no opener. -/
  complete : ∀ i, i < bs.length → coveredBy ranges i = false →
    openAt bs (coveredBy ranges) i = none → CommentForm.opener? ((Mark.ofBytes bs).drop i) = none

namespace CommentMap

/-! ## The ranges of a comment map -/

theorem mem_ranges {ms : List Mark} {s : Span} :
    s ∈ (ofMarks ms).ranges.toList ↔ .comment s ∈ Region.all ms := by
  simp only [ofMarks, List.mem_filterMap]
  constructor
  · rintro ⟨r, hr, hs⟩
    cases r with
    | comment s' =>
      cases hs
      exact hr
    | quoted => cases hs
  · intro hs
    exact ⟨_, hs, rfl⟩

theorem passes_all (bs : List UInt8) :
    Region.Passes (Mark.ofBytes bs) 0 (Region.all (Mark.ofBytes bs)) :=
  Region.passes_scan bs 0 (Nat.zero_le _)

section Ranges

variable (bs : List UInt8)

theorem pairwise_ranges :
    (ofMarks (Mark.ofBytes bs)).ranges.toList.Pairwise fun a b => a.stop ≤ b.start := by
  simp only [ofMarks, List.pairwise_filterMap]
  apply (passes_all bs).pairwise.imp
  intro r r' hle s hs s' hs'
  cases r <;> cases hs
  cases r' <;> cases hs'
  exact hle

theorem coveredBy_ranges_iff (j : Nat) :
    coveredBy (ofMarks (Mark.ofBytes bs)).ranges.toList j = true ↔
      ∃ s, Region.comment s ∈ Region.all (Mark.ofBytes bs) ∧ s.contains j = true := by
  simp only [coveredBy, List.any_eq_true, mem_ranges]

/-- Where each byte of a document stands, by the tracker that skips the comments. -/
theorem standing_all {j : Nat} (hj : j < bs.length) :
    Region.Standing (Mark.ofBytes bs) (Region.all (Mark.ofBytes bs)) j
      (openAt bs (coveredBy (ofMarks (Mark.ofBytes bs)).ranges.toList) j) :=
  (passes_all bs).standing rfl (fun j _ => coveredBy_ranges_iff bs j) (Nat.zero_le _) hj

end Ranges

/-- The tracker that skips the comments is outside quotes in all of a comment. -/
theorem openAt_of_covered {bs : List UInt8} {j : Nat}
    (hj : coveredBy (ofMarks (Mark.ofBytes bs)).ranges.toList j = true) :
    openAt bs (coveredBy (ofMarks (Mark.ofBytes bs)).ranges.toList) j = none := by
  rcases (coveredBy_ranges_iff bs j).1 hj with ⟨s, hs, hcontains⟩
  -- the comment lies within the document, so the byte does
  have hlt : j < bs.length := by
    have hspan := Region.starting?_span ((passes_all bs).starting hs)
    rw [Span.contains_iff] at hcontains
    simp only [Region.span] at hspan
    omega
  generalize hstate : openAt bs _ j = state
  have hstanding := standing_all bs hlt
  rw [hstate] at hstanding
  cases hstanding with
  | code => rfl
  | comment => rfl
  | opening => rfl
  | inside hq hqlt hqj =>
    -- the byte would lie in a quoted region as well
    have := (passes_all bs).eq_of_contains hs hq hcontains
      (by rw [Span.contains_iff]; simp only [Region.span]; omega)
    cases this

/-- The ranges of a comment map are the comments that the tracker sees. -/
theorem isCommentMap_ranges (bs : List UInt8) :
    IsCommentMap bs (ofMarks (Mark.ofBytes bs)).ranges.toList := by
  have hstarting : ∀ r ∈ (ofMarks (Mark.ofBytes bs)).ranges.toList,
      Region.starting? ((Mark.ofBytes bs).drop r.start) = some (.comment r) := by
    intro r hr
    exact (passes_all bs).starting (mem_ranges.1 hr)
  refine ⟨?_, ?_, pairwise_ranges bs, ?_, ?_⟩
  · intro r hr
    exact (Region.starting?_span (hstarting r hr)).2.1
  · intro r hr
    exact (Region.starting?_span (hstarting r hr)).2.2
  · intro r hr
    rcases Region.starting?_comment (hstarting r hr) with ⟨-, hlt, form, n, hopener, -, hend⟩
    exact ⟨openAt_of_covered (coveredBy_iff.2 ⟨r, hr, Nat.le_refl _, hlt⟩), form, n, hopener, hend⟩
  · intro i hi hout hopen
    rcases Mark.ofBytes_drop hi with ⟨m, hm, hdrop⟩
    have hstanding := standing_all bs hi
    rw [hopen] at hstanding
    -- outside quotes a byte is code, lies in a comment, or opens a quoted region
    cases hstanding with
    | code hnone =>
      rw [hdrop] at hnone ⊢
      exact (Region.starting?_eq_none hnone).2
    | comment hs hcontains =>
      have := (coveredBy_ranges_iff bs i).2 ⟨_, hs, hcontains⟩
      rw [hout] at this
      cases this
    | @opening q s closed hq hstart =>
      have hstarts := (passes_all bs).starting hq
      simp only [Region.span, hstart] at hstarts
      rcases Region.starting?_quoted hstarts with ⟨-, -, -, ⟨m', hm', hopens⟩, -⟩
      rw [hm] at hm'
      cases hm'
      rw [hdrop]
      exact CommentForm.opener?_of_quote (Mark.byte_of_opens? hopens)

/-! ## Looking up an offset -/

/-- Halving finds the first range that ends after an offset. -/
theorem firstEndingAfter_spec {ranges : Array Span}
    (hsorted : ∀ (i j : Nat) (a b : Span), i ≤ j → ranges[i]? = some a → ranges[j]? = some b →
      a.stop ≤ b.stop)
    (offset : Nat) {low high : Nat} (hle : low ≤ high) (hhigh : high ≤ ranges.size) :
    firstEndingAfter ranges offset low high ≤ high ∧
      (∀ (i : Nat) (a : Span), low ≤ i → i < firstEndingAfter ranges offset low high →
        ranges[i]? = some a → a.stop ≤ offset) ∧
      (∀ (i : Nat) (a : Span), firstEndingAfter ranges offset low high ≤ i → i < high →
        ranges[i]? = some a → offset < a.stop) := by
  fun_induction firstEndingAfter ranges offset low high with
  | case1 low high hlt middle range hrange hstop ih =>
    -- the range in the middle ends too early, and so do all before it
    rcases ih (by omega) hhigh with ⟨hbound, hbefore, hafter⟩
    refine ⟨hbound, ?_, hafter⟩
    intro i a hi hik ha
    by_cases him : i ≤ middle
    · exact Nat.le_trans (hsorted i middle a range him ha hrange) hstop
    · exact hbefore i a (by omega) hik ha
  | case2 low high hlt middle range hrange hstop ih =>
    -- the range in the middle ends late enough, and so do all after it
    rcases ih (by omega) (by omega) with ⟨hbound, hbefore, hafter⟩
    refine ⟨by omega, hbefore, ?_⟩
    intro i a hki hi ha
    by_cases him : i < middle
    · exact hafter i a hki him ha
    · have := hsorted middle i range a (by omega) hrange ha
      omega
  | case3 low high hlt middle hnone =>
    -- the middle is always within the array
    rw [Array.getElem?_eq_none_iff] at hnone
    omega
  | case4 low high hnlt =>
    exact ⟨hle, fun i a hi hik _ => by omega, fun i a hki hi _ => by omega⟩

section Lookup

variable {bs : List UInt8} {offset : Nat}

theorem stop_le_start_of_lt {i j : Nat} {a b : Span} (hij : i < j)
    (ha : (ofMarks (Mark.ofBytes bs)).ranges[i]? = some a)
    (hb : (ofMarks (Mark.ofBytes bs)).ranges[j]? = some b) : a.stop ≤ b.start := by
  rw [← Array.getElem?_toList] at ha hb
  rcases List.getElem?_eq_some_iff.1 ha with ⟨hi, rfl⟩
  rcases List.getElem?_eq_some_iff.1 hb with ⟨hj, rfl⟩
  exact List.pairwise_iff_getElem.1 (pairwise_ranges bs) i j hi hj hij

theorem stop_le_stop_of_le (i j : Nat) (a b : Span) (hij : i ≤ j)
    (ha : (ofMarks (Mark.ofBytes bs)).ranges[i]? = some a)
    (hb : (ofMarks (Mark.ofBytes bs)).ranges[j]? = some b) : a.stop ≤ b.stop := by
  rcases Nat.eq_or_lt_of_le hij with rfl | hlt
  · rw [ha] at hb
    cases hb
    exact Nat.le_refl _
  · have hle := stop_le_start_of_lt hlt ha hb
    have hpos := (isCommentMap_ranges bs).nonempty b
      (Array.mem_toList_iff.2 (Array.mem_of_getElem? hb))
    omega

/-- The range found for an offset is the one among all ranges that contains it. -/
theorem rangeAt?_eq_some_iff {r : Span} :
    (ofMarks (Mark.ofBytes bs)).rangeAt? offset = some r ↔
      r ∈ (ofMarks (Mark.ofBytes bs)).ranges.toList ∧ r.contains offset = true := by
  obtain ⟨-, hbefore, hafter⟩ := firstEndingAfter_spec (@stop_le_stop_of_le bs) offset
    (Nat.zero_le _) (Nat.le_refl _)
  simp only [rangeAt?, Option.filter_eq_some_iff, decide_eq_true_eq, Span.contains_iff]
  generalize firstEndingAfter (ofMarks (Mark.ofBytes bs)).ranges offset 0
    (ofMarks (Mark.ofBytes bs)).ranges.size = first at hbefore hafter ⊢
  constructor
  · rintro ⟨hr, hstart⟩
    rcases Array.getElem?_eq_some_iff.1 hr with ⟨hlt, -⟩
    exact ⟨Array.mem_toList_iff.2 (Array.mem_of_getElem? hr), hstart,
      hafter first r (Nat.le_refl _) hlt hr⟩
  · -- the range that contains the offset is neither before nor after the one found
    rintro ⟨hr, hstart, hstop⟩
    rcases List.getElem?_of_mem hr with ⟨k, hk⟩
    rw [Array.getElem?_toList] at hk
    rcases Array.getElem?_eq_some_iff.1 hk with ⟨hklt, -⟩
    rcases Nat.lt_trichotomy k first with hlt | rfl | hlt
    · have := hbefore k r (Nat.zero_le _) hlt hk
      omega
    · exact ⟨hk, hstart⟩
    · -- the range found would end after the offset, and yet before the range that contains it
      have ha := Array.getElem?_eq_getElem (Nat.lt_trans hlt hklt)
      have hends := hafter first _ (Nat.le_refl _) (by omega) ha
      have := stop_le_start_of_lt hlt ha hk
      omega

/-- At most one range contains an offset. -/
theorem eq_of_mem_ranges {r r' : Span} (hr : r ∈ (ofMarks (Mark.ofBytes bs)).ranges.toList)
    (hr' : r' ∈ (ofMarks (Mark.ofBytes bs)).ranges.toList) (hin : r.contains offset = true)
    (hin' : r'.contains offset = true) : r = r' :=
  eq_of_apart id (pairwise_ranges bs) hr hr' hin hin'

/-- Halving finds the range that a search from the first range on finds. -/
theorem rangeAt?_eq_find? :
    (ofMarks (Mark.ofBytes bs)).rangeAt? offset =
      (ofMarks (Mark.ofBytes bs)).ranges.toList.find? fun r => r.contains offset := by
  cases hfound : (ofMarks (Mark.ofBytes bs)).ranges.toList.find? fun r => r.contains offset with
  | none =>
    rw [Option.eq_none_iff_forall_ne_some]
    intro r hr
    rcases rangeAt?_eq_some_iff.1 hr with ⟨hmem, hin⟩
    exact List.find?_eq_none.1 hfound r hmem hin
  | some r =>
    rw [rangeAt?_eq_some_iff]
    exact ⟨List.mem_of_find?_eq_some hfound, by simpa using List.find?_some hfound⟩

/-- Looking up an offset by halving agrees with looking through all ranges. -/
theorem contains_eq_coveredBy :
    (ofMarks (Mark.ofBytes bs)).contains offset =
      coveredBy (ofMarks (Mark.ofBytes bs)).ranges.toList offset := by
  rw [Bool.eq_iff_iff, CommentMap.contains, Option.isSome_iff_exists, coveredBy, List.any_eq_true]
  simp only [rangeAt?_eq_some_iff]

theorem contains_eq (bs : List UInt8) :
    (ofMarks (Mark.ofBytes bs)).contains =
      coveredBy (ofMarks (Mark.ofBytes bs)).ranges.toList := by
  funext j
  exact contains_eq_coveredBy

/-- The tracker that looks comments up is outside quotes in all of a comment. -/
theorem openAt_of_contains (h : (ofMarks (Mark.ofBytes bs)).contains offset = true) :
    openAt bs (ofMarks (Mark.ofBytes bs)).contains offset = none := by
  rw [contains_eq] at h ⊢
  exact openAt_of_covered h

/-- Where each byte of a document stands, by the tracker that looks comments up. -/
theorem standing_contains (h : offset < bs.length) :
    Region.Standing (Mark.ofBytes bs) (Region.all (Mark.ofBytes bs)) offset
      (openAt bs (ofMarks (Mark.ofBytes bs)).contains offset) := by
  rw [contains_eq]
  exact standing_all bs h

end Lookup

end CommentMap

/-! ## The comments are determined -/

theorem FirstAt.unique {pattern bs : List UInt8} {start k k' : Nat}
    (h : FirstAt pattern bs start k) (h' : FirstAt pattern bs start k') : k = k' := by
  rcases h with ⟨hle, hk, hfirst⟩
  rcases h' with ⟨hle', hk', hfirst'⟩
  rcases Nat.lt_trichotomy k k' with hlt | heq | hlt
  · exact absurd hk (hfirst' k hle hlt)
  · exact heq
  · exact absurd hk' (hfirst k' hle' hlt)

theorem CommentForm.EndsAt.unique {form : CommentForm} {bs : List UInt8} {start stop stop' : Nat}
    (h : form.EndsAt bs start stop) (h' : form.EndsAt bs start stop') : stop = stop' := by
  rcases h with ⟨k, hk, rfl⟩ | ⟨habsent, rfl⟩ <;> rcases h' with ⟨k', hk', rfl⟩ | ⟨habsent', rfl⟩
  · rw [hk.unique hk']
  · exact absurd hk.2.1 (habsent' k hk.1)
  · exact absurd hk'.2.1 (habsent k' hk'.1)
  · rfl

/-- A tracker depends on what it skips of the earlier bytes only. -/
theorem openAt_congr {bs : List UInt8} {skipped skipped' : Nat → Bool} {i : Nat}
    (h : ∀ j, j < i → skipped j = skipped' j) : openAt bs skipped i = openAt bs skipped' i := by
  induction i with
  | zero => rfl
  | succ i ih =>
    rw [openAt, openAt, ih fun j hj => h j (by omega), h i (by omega)]

namespace IsCommentMap

variable {bs : List UInt8} {ranges ranges' : List Span}

theorem pairwise_start (h : IsCommentMap bs ranges) :
    ranges.Pairwise fun a b => a.start < b.start := by
  apply (List.Pairwise.and_mem.1 h.sorted).imp
  rintro a b ⟨ha, -, hle⟩
  have := h.nonempty a ha
  omega

/-- Of two comment maps of a document, the second has each range of the first of which all earlier
ones are shared. -/
theorem mem_of_mem (h : IsCommentMap bs ranges) (h' : IsCommentMap bs ranges') {r : Span}
    (hr : r ∈ ranges) (hbefore : ∀ r', r'.start < r.start → (r' ∈ ranges ↔ r' ∈ ranges')) :
    r ∈ ranges' := by
  have hpos := h.nonempty r hr
  -- what covers the earlier bytes is shared, and so is the state of the tracker
  have hshared : ∀ j, j < r.start → coveredBy ranges j = coveredBy ranges' j := by
    intro j hj
    rw [Bool.eq_iff_iff, coveredBy_iff, coveredBy_iff]
    constructor
    · rintro ⟨r', hr', hle, hlt⟩
      exact ⟨r', (hbefore r' (by omega)).1 hr', hle, hlt⟩
    · rintro ⟨r', hr', hle, hlt⟩
      exact ⟨r', (hbefore r' (by omega)).2 hr', hle, hlt⟩
  rcases h.opened r hr with ⟨hopen, form, n, hopener, hend⟩
  rw [openAt_congr hshared] at hopen
  by_cases hcovered : coveredBy ranges' r.start = true
  · rcases coveredBy_iff.1 hcovered with ⟨r', hr', hle, hlt⟩
    rcases Nat.eq_or_lt_of_le hle with hstart | hstart
    · -- the second map has a range that starts here, and the opener tells where it ends
      rcases h'.opened r' hr' with ⟨-, form', n', hopener', hend'⟩
      rw [hstart, hopener] at hopener'
      cases hopener'
      rw [hstart] at hend'
      have hstop := hend.unique hend'
      have heq : r' = r := by
        cases r
        cases r'
        simp_all
      exact heq ▸ hr'
    · -- a range around this place would be shared, and overlap with ours
      have hr'' := (hbefore r' hstart).2 hr'
      have := eq_of_apart id h.sorted hr'' hr (Span.contains_iff.2 ⟨hle, hlt⟩)
        (Span.contains_iff.2 ⟨Nat.le_refl _, hpos⟩)
      rw [this] at hstart
      omega
  · -- without a range here the second map would miss an opener
    have hnone := h'.complete r.start (by have := h.inBounds r hr; omega)
      (by simpa using hcovered) hopen
    rw [hnone] at hopener
    cases hopener

/-- A document has one comment map. -/
theorem unique (h : IsCommentMap bs ranges) (h' : IsCommentMap bs ranges') : ranges = ranges' := by
  -- the induction is on a bound for the starts, and each map in turn has what the other has
  have hmem : ∀ n, ∀ r : Span, r.start < n → (r ∈ ranges ↔ r ∈ ranges') := by
    intro n
    induction n with
    | zero => intro r hr; omega
    | succ n ih =>
      intro r hr
      constructor
      · intro hin
        exact h.mem_of_mem h' hin fun r' hlt => ih r' (by omega)
      · intro hin
        exact h'.mem_of_mem h hin fun r' hlt => (ih r' (by omega)).symm
  exact eq_of_ascending Span.start h.pairwise_start h'.pairwise_start
    fun r => hmem _ r (Nat.lt_succ_self _)

end IsCommentMap

/-- The comments of a document, as a quote tracker sees them, are the ranges of its comment map and
no others. -/
theorem isCommentMap_iff (t : Text) (ranges : List Span) :
    IsCommentMap (Text.bytes t) ranges ↔
      (CommentMap.ofMarks (Mark.ofBytes (Text.bytes t))).ranges.toList = ranges := by
  constructor
  · intro h
    exact (CommentMap.isCommentMap_ranges _).unique h
  · rintro rfl
    exact CommentMap.isCommentMap_ranges _

end ClassHighlight
