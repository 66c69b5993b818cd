import Mathlib.Data.List.Pairwise
import Mathlib.Data.Nat.Init
import ClassHighlight.Proofs.Source.Region

/-!
# The walk of the comment scan

`Region.scan` jumps from region to region. `Region.Passes` says the same as a relation on offsets:
in code the scan goes on by one byte or through one region. Order, bounds and gaps of the regions
follow by induction on that relation, and so does what a quote tracker makes of the bytes between
the comments: it is inside a quoted region exactly where the scan is.
-/

namespace ClassHighlight

/-- Of two members of a list one comes first. -/
theorem or_swap_of_pairwise {α : Type} {R : α → α → Prop} {l : List α} (h : l.Pairwise R) {a b : α}
    (ha : a ∈ l) (hb : b ∈ l) (hne : a ≠ b) : R a b ∨ R b a := by
  have hpairwise : l.Pairwise fun a b => R a b ∨ R b a := h.imp Or.inl
  have : Std.Symm fun a b : α => R a b ∨ R b a := ⟨fun _ _ => Or.symm⟩
  exact hpairwise.forall ha hb hne

/-- Of things whose extents are in order and do not overlap, only one contains an offset. -/
theorem eq_of_apart {α : Type} (extent : α → Span) {l : List α}
    (h : l.Pairwise fun a b => (extent a).stop ≤ (extent b).start) {a b : α} {j : Nat}
    (ha : a ∈ l) (hb : b ∈ l) (haj : (extent a).contains j = true)
    (hbj : (extent b).contains j = true) : a = b := by
  rw [Span.contains_iff] at haj hbj
  by_contra hne
  have hapart := or_swap_of_pairwise h ha hb hne
  omega

/-- Two lists in ascending order are the same if they have the same members. -/
theorem eq_of_ascending {α : Type} (key : α → Nat) {l l' : List α}
    (h : l.Pairwise fun a b => key a < key b) (h' : l'.Pairwise fun a b => key a < key b)
    (hmem : ∀ a, a ∈ l ↔ a ∈ l') : l = l' := by
  have hnodup : ∀ {l : List α}, (l.Pairwise fun a b => key a < key b) → l.Nodup := by
    intro l hl
    apply hl.imp
    rintro a b hlt rfl
    omega
  have hperm : l.Perm l' := (List.perm_ext_iff_of_nodup (hnodup h) (hnodup h')).2 hmem
  apply hperm.eq_of_pairwise ?_ h h'
  intro a b _ _ hab hba
  omega

/-! ## The tracker -/

/-- The quoted region that is open before an index, for a tracker that reads, in order, every
earlier byte that is not skipped. -/
def openAt (bytes : List UInt8) (skipped : Nat → Bool) : Nat → QuoteState
  | 0 => none
  | i + 1 =>
    match bytes[i]? with
    | some b =>
      if skipped i then openAt bytes skipped i
      else ((openAt bytes skipped i).step (isEscaped bytes i) b).1
    | none => openAt bytes skipped i

namespace QuoteState

theorem step_none (m : Mark) :
    step none m.escaped m.byte = (m.opens?, m.opens?.isSome) := by
  unfold step Mark.opens?
  cases Quote.ofByte? m.byte <;> cases m.escaped <;> rfl

theorem step_some (q : Quote) (m : Mark) :
    step (some q) m.escaped m.byte = if m.closes q then (none, true) else (some q, false) := rfl

end QuoteState

section Tracker

variable {bs : List UInt8} {skipped : Nat → Bool} {i : Nat} {m : Mark}

theorem openAt_succ_of_skipped (h : skipped i = true) :
    openAt bs skipped (i + 1) = openAt bs skipped i := by
  rw [openAt]
  split
  · rw [if_pos h]
  · rfl

theorem openAt_succ (hm : (Mark.ofBytes bs)[i]? = some m) (h : skipped i = false) :
    openAt bs skipped (i + 1) = ((openAt bs skipped i).step m.escaped m.byte).1 := by
  rw [openAt, Mark.byte_of_getElem? hm, Mark.escaped_of_getElem? hm]
  simp [h]

end Tracker

namespace Mark

/-- What opens a quoted region is that quote. -/
theorem byte_of_opens? {m : Mark} {q : Quote} (h : m.opens? = some q) : m.byte = q.byte := by
  unfold opens? at h
  split at h
  · cases h
  · have := List.find?_some h
    exact (beq_iff_eq.1 this).symm

theorem ofBytes_drop {bs : List UInt8} {i : Nat} (h : i < bs.length) :
    ∃ m, (ofBytes bs)[i]? = some m ∧ (ofBytes bs).drop i = m :: (ofBytes bs).drop (i + 1) := by
  have hlt : i < (ofBytes bs).length := by simpa using h
  exact ⟨(ofBytes bs)[i], List.getElem?_eq_getElem hlt, List.drop_eq_getElem_cons hlt⟩

/-- The mark at an index holds the byte that stands there. -/
theorem exists_mark {bs : List UInt8} {i : Nat} {b : UInt8} (h : bs[i]? = some b) :
    ∃ m, (ofBytes bs)[i]? = some m ∧ m.byte = b ∧
      (ofBytes bs).drop i = m :: (ofBytes bs).drop (i + 1) := by
  rcases ofBytes_drop (List.getElem?_eq_some_iff.1 h).1 with ⟨m, hm, hdrop⟩
  have hbyte := byte_of_getElem? hm
  rw [h] at hbyte
  exact ⟨m, hm, (Option.some.inj hbyte).symm, hdrop⟩

theorem ofBytes_drop_of_le {bs : List UInt8} {i : Nat} (h : bs.length ≤ i) :
    (ofBytes bs).drop i = [] :=
  List.drop_eq_nil_of_le (by rw [length_ofBytes]; exact h)

theorem lt_length_of_getElem? {bs : List UInt8} {i : Nat} {m : Mark}
    (h : (ofBytes bs)[i]? = some m) : i < bs.length := by
  rw [← length_ofBytes bs]
  exact (List.getElem?_eq_some_iff.1 h).1

end Mark

namespace Region

/-! ## What starts a region -/

theorem scan_eq_scan_drop (skip : Nat) (ms : List Mark) : scan skip ms = scan 0 (ms.drop skip) := by
  induction skip generalizing ms with
  | zero => rfl
  | succ skip ih =>
    cases ms with
    | nil => rfl
    | cons m rest => exact ih rest

section Starting

variable {bs : List UInt8} {i : Nat}

/-- A comment starts with an opener in code and ends as its form says. -/
theorem starting?_comment {s : Span}
    (h : starting? ((Mark.ofBytes bs).drop i) = some (.comment s)) :
    s.start = i ∧ i < s.stop ∧ ∃ form n,
      CommentForm.opener? ((Mark.ofBytes bs).drop i) = some (form, n) ∧
      i + n ≤ bs.length ∧ form.EndsAt bs (i + n) s.stop := by
  by_cases hi : i < bs.length
  · rcases Mark.ofBytes_drop hi with ⟨m, hm, hdrop⟩
    rw [hdrop, starting?] at h
    split at h
    · -- a quote would start a quoted region
      split at h <;> cases h
    · rcases Option.map_eq_some_iff.1 h with ⟨⟨form, n⟩, hopener, heq⟩
      rcases CommentForm.opener?_spec hopener with ⟨hpos, hlen, -⟩
      rw [List.length_drop, Mark.length_ofBytes] at hlen
      -- the body is measured from where the opener ends
      have hend : form.EndsAt bs (i + n)
          (i + n + bodyLength form ((Mark.ofBytes bs).drop (i + n))) := by
        apply CommentForm.EndsAt.of_drop (by omega)
        have hbody := bodyLength_spec form ((Mark.ofBytes bs).drop (i + n))
        rwa [List.map_drop, Mark.map_byte_ofBytes] at hbody
      rw [Mark.offset_of_getElem? hm, ← hdrop] at heq
      simp only [List.drop_drop] at heq
      cases heq
      refine ⟨rfl, by simp only; omega, form, n, ?_, by omega, hend⟩
      rw [hdrop]
      exact hopener
  · rw [Mark.ofBytes_drop_of_le (by omega)] at h
    cases h

/-- A quoted region starts with a quote that opens it in code; within it no mark closes it but the
last one, if it is closed. -/
theorem starting?_quoted {q : Quote} {s : Span} {closed : Bool}
    (h : starting? ((Mark.ofBytes bs).drop i) = some (.quoted q s closed)) :
    s.start = i ∧ i < s.stop ∧ s.stop ≤ bs.length ∧
      (∃ m, (Mark.ofBytes bs)[i]? = some m ∧ m.opens? = some q) ∧
      (∀ j m, i < j → j + 1 < s.stop → (Mark.ofBytes bs)[j]? = some m → m.closes q = false) ∧
      (closed = true →
        i + 1 < s.stop ∧ ∃ m, (Mark.ofBytes bs)[s.stop - 1]? = some m ∧ m.closes q = true) ∧
      (closed = false → s.stop = bs.length ∧
        ∀ j m, i < j → (Mark.ofBytes bs)[j]? = some m → m.closes q = false) := by
  by_cases hi : i < bs.length
  · rcases Mark.ofBytes_drop hi with ⟨m, hm, hdrop⟩
    -- the search for the last delimiter counts from behind the first one
    have hget : ∀ j, i < j →
        (Mark.ofBytes bs)[j]? = ((Mark.ofBytes bs).drop (i + 1))[j - (i + 1)]? := by
      intro j hj
      rw [List.getElem?_drop]
      congr 1
      omega
    rw [hdrop, starting?, Mark.offset_of_getElem? hm] at h
    split at h
    · rename_i q' hopens
      split at h
      · -- the region is closed
        rename_i n hn
        rcases quotedLength?_spec hn with ⟨hpos, hle, ⟨m', hm', hcloses⟩, hbefore⟩
        rw [List.length_drop, Mark.length_ofBytes] at hle
        cases h
        refine ⟨rfl, by simp only; omega, by simp only; omega, ⟨m, hm, hopens⟩, ?_, ?_, by simp⟩
        · intro j m'' hj hlt hm''
          rw [hget j hj] at hm''
          exact hbefore _ _ (by simp only at hlt; omega) hm''
        · intro _
          refine ⟨by simp only; omega, m', ?_, hcloses⟩
          rw [hget _ (by simp only; omega), ← hm']
          congr 1
          simp only
          omega
      · -- the region runs to the end
        rename_i hn
        have hnone := quotedLength?_eq_none hn
        rw [List.length_drop, Mark.length_ofBytes] at h
        cases h
        refine ⟨rfl, by simp only; omega, by simp only; omega, ⟨m, hm, hopens⟩, ?_, by simp, ?_⟩
        · intro j m'' hj _ hm''
          rw [hget j hj] at hm''
          exact hnone _ _ hm''
        · intro _
          refine ⟨by simp only; omega, ?_⟩
          intro j m'' hj hm''
          rw [hget j hj] at hm''
          exact hnone _ _ hm''
    · rcases Option.map_eq_some_iff.1 h with ⟨_, _, heq⟩
      cases heq
  · rw [Mark.ofBytes_drop_of_le (by omega)] at h
    cases h

/-- A region lies where it starts, is not empty, and ends within the document. -/
theorem starting?_span {r : Region} (h : starting? ((Mark.ofBytes bs).drop i) = some r) :
    r.span.start = i ∧ i < r.span.stop ∧ r.span.stop ≤ bs.length := by
  cases r with
  | comment s =>
    rcases starting?_comment h with ⟨hstart, hlt, _, _, -, -, hend⟩
    exact ⟨hstart, hlt, hend.le_length⟩
  | quoted q s closed =>
    rcases starting?_quoted h with ⟨hstart, hlt, hle, -⟩
    exact ⟨hstart, hlt, hle⟩

/-- Where no region starts, neither a quote nor a comment opens. -/
theorem starting?_eq_none {m : Mark} {rest : List Mark} (h : starting? (m :: rest) = none) :
    m.opens? = none ∧ CommentForm.opener? (m :: rest) = none := by
  rw [starting?] at h
  split at h
  · split at h <;> cases h
  · rename_i hopens
    exact ⟨hopens, Option.map_eq_none_iff.1 h⟩

end Starting

/-! ## The walk -/

/-- A scan that stands in code at an offset passes through the given regions. -/
inductive Passes (ms : List Mark) : Nat → List Region → Prop
  | done : Passes ms ms.length []
  | code {i : Nat} {rs : List Region} :
      i < ms.length → starting? (ms.drop i) = none → Passes ms (i + 1) rs → Passes ms i rs
  | region {i : Nat} {r : Region} {rs : List Region} :
      starting? (ms.drop i) = some r → Passes ms r.span.stop rs → Passes ms i (r :: rs)

/-- The scan passes through the regions that it finds. -/
theorem passes_scan (bs : List UInt8) (i : Nat) (hi : i ≤ bs.length) :
    Passes (Mark.ofBytes bs) i (scan 0 ((Mark.ofBytes bs).drop i)) := by
  -- the bytes that are left get fewer, by one or by a region
  induction hk : bs.length - i using Nat.strong_induction_on generalizing i with
  | _ k ih =>
    by_cases hlt : i < bs.length
    · rcases Mark.ofBytes_drop hlt with ⟨m, -, hdrop⟩
      rw [hdrop, scan, ← hdrop]
      cases hr : starting? ((Mark.ofBytes bs).drop i) with
      | none =>
        exact .code (by simpa using hlt) hr (ih _ (by omega) (i + 1) (by omega) rfl)
      | some r =>
        rcases starting?_span hr with ⟨hstart, hstop, hle⟩
        -- the marks skipped after the first one are the rest of the region
        have hrest : (Mark.ofBytes bs).drop (i + 1 + (r.span.length - 1)) =
            (Mark.ofBytes bs).drop r.span.stop := by
          congr 1
          unfold Span.length
          omega
        simp only
        rw [scan_eq_scan_drop, List.drop_drop, hrest]
        exact .region hr (ih _ (by omega) _ hle rfl)
    · have hend : i = (Mark.ofBytes bs).length := by
        rw [Mark.length_ofBytes]
        omega
      rw [hend, List.drop_length]
      exact .done

namespace Passes

variable {bs : List UInt8} {i : Nat} {rs : List Region}

/-- Each region of a walk is the one that starts at its offset. -/
theorem starting (h : Passes (Mark.ofBytes bs) i rs) {r : Region} (hr : r ∈ rs) :
    starting? ((Mark.ofBytes bs).drop r.span.start) = some r := by
  induction h with
  | done => cases hr
  | code _ _ _ ih => exact ih hr
  | region hsome _ ih =>
    rcases List.mem_cons.1 hr with rfl | hr
    · rw [(starting?_span hsome).1]
      exact hsome
    · exact ih hr

/-- A walk goes forward. -/
theorem le_start (h : Passes (Mark.ofBytes bs) i rs) {r : Region} (hr : r ∈ rs) :
    i ≤ r.span.start := by
  induction h with
  | done => cases hr
  | code _ _ _ ih => exact Nat.le_of_succ_le (ih hr)
  | region hsome _ ih =>
    rcases starting?_span hsome with ⟨hstart, hstop, -⟩
    rcases List.mem_cons.1 hr with rfl | hr
    · exact Nat.le_of_eq hstart.symm
    · have := ih hr
      omega

/-- Each region ends before the next one starts, or where it starts. -/
theorem pairwise (h : Passes (Mark.ofBytes bs) i rs) :
    rs.Pairwise fun a b => a.span.stop ≤ b.span.start := by
  induction h with
  | done => exact .nil
  | code _ _ _ ih => exact ih
  | region _ rest ih => exact List.pairwise_cons.2 ⟨fun _ hr => rest.le_start hr, ih⟩

/-- No two regions overlap. -/
theorem eq_of_contains (h : Passes (Mark.ofBytes bs) i rs) {r r' : Region} {j : Nat}
    (hr : r ∈ rs) (hr' : r' ∈ rs) (hj : r.span.contains j = true)
    (hj' : r'.span.contains j = true) : r = r' :=
  eq_of_apart Region.span h.pairwise hr hr' hj hj'

end Passes

/-! ## What the tracker makes of the walk -/

/-- Where a byte stands among the regions of a document, and which quoted region is open before
it. -/
inductive Standing (ms : List Mark) (rs : List Region) (j : Nat) : QuoteState → Prop
  | code : starting? (ms.drop j) = none → (∀ r ∈ rs, r.span.contains j = false) →
      Standing ms rs j none
  | comment {s : Span} : .comment s ∈ rs → s.contains j = true → Standing ms rs j none
  | opening {q : Quote} {s : Span} {closed : Bool} :
      .quoted q s closed ∈ rs → s.start = j → Standing ms rs j none
  | inside {q : Quote} {s : Span} {closed : Bool} :
      .quoted q s closed ∈ rs → s.start < j → j < s.stop → Standing ms rs j (some q)

/-- A region that ends at or before a byte does not change where the byte stands. -/
theorem Standing.cons {ms : List Mark} {rs : List Region} {j : Nat} {open? : QuoteState}
    {r : Region} (hr : r.span.stop ≤ j) (h : Standing ms rs j open?) :
    Standing ms (r :: rs) j open? := by
  cases h with
  | code hnone hout =>
    refine .code hnone ?_
    intro r' hr'
    rcases List.mem_cons.1 hr' with rfl | hr'
    · rw [← Bool.not_eq_true, Span.contains_iff]
      omega
    · exact hout r' hr'
  | comment hs hj => exact .comment (List.mem_cons_of_mem _ hs) hj
  | opening hs hj => exact .opening (List.mem_cons_of_mem _ hs) hj
  | inside hs hlt hj => exact .inside (List.mem_cons_of_mem _ hs) hlt hj

section Tracker

variable {bs : List UInt8} {skipped : Nat → Bool} {i : Nat}

/-- Skipped bytes leave the tracker where it is. -/
theorem openAt_of_skipped {stop : Nat} (h : ∀ j, i ≤ j → j < stop → skipped j = true) {j : Nat}
    (hij : i ≤ j) (hj : j ≤ stop) : openAt bs skipped j = openAt bs skipped i := by
  induction j, hij using Nat.le_induction with
  | base => rfl
  | succ j hij ih =>
    rw [openAt_succ_of_skipped (h j hij (by omega)), ih (by omega)]

/-- A quoted region stays open as long as no byte closes it. -/
theorem openAt_of_quoted {q : Quote} {stop : Nat} (hle : stop ≤ bs.length)
    (hread : ∀ j, i ≤ j → j < stop → skipped j = false) (hopen : openAt bs skipped i = none)
    (hfirst : ∃ m, (Mark.ofBytes bs)[i]? = some m ∧ m.opens? = some q)
    (hwithin : ∀ j m, i < j → j + 1 < stop → (Mark.ofBytes bs)[j]? = some m → m.closes q = false)
    {j : Nat} (hij : i < j) (hj : j < stop) : openAt bs skipped j = some q := by
  induction j, hij using Nat.le_induction with
  | base =>
    rcases hfirst with ⟨m, hm, hopens⟩
    rw [openAt_succ hm (hread i (Nat.le_refl _) (by omega)), hopen, QuoteState.step_none, hopens]
  | succ j hij ih =>
    rcases Mark.ofBytes_drop (show j < bs.length by omega) with ⟨m, hm, -⟩
    rw [openAt_succ hm (hread j (by omega) (by omega)), ih (by omega), QuoteState.step_some,
      hwithin j m (by omega) hj hm]
    rfl

/-- From an index on, the tracker skips the comments among some regions and nothing else. -/
def SkipsComments (skipped : Nat → Bool) (rs : List Region) (i : Nat) : Prop :=
  ∀ j, i ≤ j → (skipped j = true ↔ ∃ s, Region.comment s ∈ rs ∧ s.contains j = true)

/-- Before the next region the tracker skips nothing. -/
theorem Passes.skipped_eq_false {rs : List Region} {stop : Nat}
    (h : Passes (Mark.ofBytes bs) stop rs) (hskip : SkipsComments skipped rs i) (hi : i < stop) :
    skipped i = false := by
  rw [← Bool.not_eq_true, hskip i (Nat.le_refl _)]
  rintro ⟨s, hs, hcontains⟩
  have hlate := h.le_start hs
  rw [Span.contains_iff] at hcontains
  simp only [Region.span] at hlate
  omega

/-- Behind a region its bytes no longer matter. -/
theorem SkipsComments.behind {r : Region} {rs : List Region}
    (h : SkipsComments skipped (r :: rs) i) (hi : i ≤ r.span.stop) :
    SkipsComments skipped rs r.span.stop := by
  intro j hj
  rw [h j (by omega)]
  constructor
  · rintro ⟨s, hs, hcontains⟩
    rcases List.mem_cons.1 hs with rfl | hs
    · rw [Span.contains_iff] at hcontains
      simp only [Region.span] at hj
      omega
    · exact ⟨s, hs, hcontains⟩
  · rintro ⟨s, hs, hcontains⟩
    exact ⟨s, List.mem_cons_of_mem _ hs, hcontains⟩

/-- In a comment the tracker stays outside quotes, and so it leaves the comment. -/
theorem standing_of_comment {s : Span} {rs : List Region} (hstart : s.start = i)
    (hopen : openAt bs skipped i = none)
    (hskip : SkipsComments skipped (.comment s :: rs) i) :
    (∀ j, i ≤ j → j < s.stop →
      Standing (Mark.ofBytes bs) (.comment s :: rs) j (openAt bs skipped j)) ∧
    (i ≤ s.stop → openAt bs skipped s.stop = none) := by
  have hskipped : ∀ k, i ≤ k → k < s.stop → skipped k = true := by
    intro k hik hk
    rw [hskip k hik]
    exact ⟨s, List.mem_cons_self, by rw [Span.contains_iff]; omega⟩
  constructor
  · intro j hij hj
    rw [openAt_of_skipped hskipped hij (by omega), hopen]
    exact .comment List.mem_cons_self (by rw [Span.contains_iff]; omega)
  · intro hle
    rw [openAt_of_skipped hskipped hle (Nat.le_refl _), hopen]

/-- In a quoted region the tracker is within quotes behind the first delimiter, and the last
delimiter ends them. -/
theorem standing_of_quoted {q : Quote} {s : Span} {closed : Bool} {rs : List Region}
    (hsome : starting? ((Mark.ofBytes bs).drop i) = some (.quoted q s closed))
    (hrest : Passes (Mark.ofBytes bs) s.stop rs) (hopen : openAt bs skipped i = none)
    (hskip : SkipsComments skipped (.quoted q s closed :: rs) i) :
    (∀ j, i ≤ j → j < s.stop →
      Standing (Mark.ofBytes bs) (.quoted q s closed :: rs) j (openAt bs skipped j)) ∧
    (s.stop < bs.length → openAt bs skipped s.stop = none) := by
  rcases starting?_quoted hsome with ⟨hstart, hstop, hle, hfirst, hwithin, hclosed, hunclosed⟩
  -- a quoted region holds no comment, so the tracker reads all of it
  have hread : ∀ k, i ≤ k → k < s.stop → skipped k = false := by
    intro k hik hk
    apply hrest.skipped_eq_false (i := k) ?_ hk
    intro j hj
    rw [hskip j (by omega)]
    constructor
    · rintro ⟨s', hs', hcontains⟩
      rcases List.mem_cons.1 hs' with heq | hs'
      · cases heq
      · exact ⟨s', hs', hcontains⟩
    · rintro ⟨s', hs', hcontains⟩
      exact ⟨s', List.mem_cons_of_mem _ hs', hcontains⟩
  constructor
  · intro j hij hj
    rcases Nat.eq_or_lt_of_le hij with rfl | hlt
    · rw [hopen]
      exact .opening List.mem_cons_self hstart
    · rw [openAt_of_quoted hle hread hopen hfirst hwithin hlt hj]
      exact .inside List.mem_cons_self (by omega) hj
  · intro hbefore
    cases closed with
    | false =>
      -- a region that is not closed leaves no byte behind it
      have := (hunclosed rfl).1
      omega
    | true =>
      rcases hclosed rfl with ⟨hlt, m, hm, hcloses⟩
      have hlast : s.stop = (s.stop - 1) + 1 := by omega
      rw [hlast, openAt_succ hm (hread _ (by omega) (by omega)),
        openAt_of_quoted hle hread hopen hfirst hwithin (by omega) (by omega),
        QuoteState.step_some, hcloses]
      rfl

/-- A tracker that skips the comments is inside a quoted region exactly where the scan is. -/
theorem Passes.standing {rs : List Region} (h : Passes (Mark.ofBytes bs) i rs)
    (hopen : openAt bs skipped i = none) (hskip : SkipsComments skipped rs i)
    {j : Nat} (hij : i ≤ j) (hj : j < bs.length) :
    Standing (Mark.ofBytes bs) rs j (openAt bs skipped j) := by
  induction h with
  | done =>
    rw [Mark.length_ofBytes] at hij
    omega
  | @code i rs hlt hnone rest ih =>
    rcases Nat.eq_or_lt_of_le hij with rfl | hlt'
    · -- the byte at hand is code
      rw [hopen]
      refine .code hnone ?_
      intro r hr
      have := rest.le_start hr
      rw [← Bool.not_eq_true, Span.contains_iff]
      omega
    · -- a byte that starts no region opens no quote either
      apply ih ?_ (fun j hj => hskip j (by omega)) hlt'
      rcases Mark.ofBytes_drop (show i < bs.length by omega) with ⟨m, hm, hdrop⟩
      rw [hdrop] at hnone
      have hread := rest.skipped_eq_false hskip (Nat.lt_succ_self i)
      rw [openAt_succ hm hread, hopen, QuoteState.step_none, (starting?_eq_none hnone).1]
  | @region i r rs hsome rest ih =>
    rcases starting?_span hsome with ⟨hstart, hstop, hle⟩
    have hregion : (∀ j, i ≤ j → j < r.span.stop →
          Standing (Mark.ofBytes bs) (r :: rs) j (openAt bs skipped j)) ∧
        (r.span.stop < bs.length → openAt bs skipped r.span.stop = none) := by
      cases r with
      | comment s =>
        rcases standing_of_comment hstart hopen hskip with ⟨hwithin, hback⟩
        exact ⟨hwithin, fun _ => hback (Nat.le_of_lt hstop)⟩
      | quoted q s closed => exact standing_of_quoted hsome rest hopen hskip
    by_cases hin : j < r.span.stop
    · exact hregion.1 j hij hin
    · -- the walk goes on in code behind the region
      have hback := hregion.2 (by omega)
      have hbehind := hskip.behind (Nat.le_of_lt hstop)
      exact (ih hback hbehind (by omega)).cons (by omega)

end Tracker

end Region

end ClassHighlight
