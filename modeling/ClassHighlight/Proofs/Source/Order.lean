import Mathlib.Data.List.Pairwise
import ClassHighlight.Proofs.Source.Candidate

/-!
# Candidates in document order

The values of attributes lie one behind the other, and so do the literals of outermost calls. But
an attribute and a literal are found by two searches that do not know of each other, and they may
overlap; sorting puts them in the order of their bases, and at the same base the attribute first.
-/

namespace ClassHighlight

/-! ## Literals of outermost calls -/

/-- Outermost calls lie one behind the other. -/
theorem Call.pairwise_outermostFrom {calls : List Call} (hpositive : ∀ c ∈ calls, c.start < c.stop)
    (covered : Nat) : (∀ o ∈ outermostFrom covered calls, covered ≤ o.start) ∧
      (outermostFrom covered calls).Pairwise fun o o' => o.stop ≤ o'.start := by
  induction calls generalizing covered with
  | nil => exact ⟨fun _ ho => absurd ho List.not_mem_nil, .nil⟩
  | cons call rest ih =>
    have hrest : ∀ c ∈ rest, c.start < c.stop := by
      intro c hc
      exact hpositive c (List.mem_cons_of_mem _ hc)
    rw [outermostFrom]
    by_cases hcovered : call.start < covered
    · rw [if_pos hcovered]
      exact ih hrest covered
    · rw [if_neg hcovered]
      rcases ih hrest call.stop with ⟨hbehind, hapart⟩
      have hcall := hpositive call List.mem_cons_self
      constructor
      · intro o ho
        rcases List.mem_cons.1 ho with rfl | ho
        · omega
        · have := hbehind o ho
          omega
      · rw [List.pairwise_cons]
        exact ⟨hbehind, hapart⟩

namespace Source

section Arguments

variable {t : Text} {call : Call} {c : Candidate}

/-- The literals of a call lie between its parentheses. -/
theorem bounds_of_mem_literals (hcall : call ∈ (ofText t).calls)
    (h : c ∈ (ofText t).literals call) : call.start < c.base ∧ c.span.stop < call.stop := by
  rcases (mem_literals hcall).1 h with ⟨q, body, hbody, hlt, rfl⟩
  have hbehind := (isCallAt_of_mem hcall).1.behind
  have hafter := hbody.after
  rw [(isDelimited_of_isLiteral hbody).span_eq]
  simp only
  omega

theorem pairwise_outermost (t : Text) :
    (Call.outermost (ofText t).calls).Pairwise fun o o' => o.stop ≤ o'.start :=
  (Call.pairwise_outermostFrom (fun _ hc => start_lt_stop_of_mem_calls hc) 0).2

/-- The literals of all outermost calls lie one behind the other. -/
theorem pairwise_arguments (t : Text) :
    (ofText t).arguments.Pairwise fun c c' => c.span.stop < c'.base := by
  have hcall : ∀ o ∈ Call.outermost (ofText t).calls, o ∈ (ofText t).calls := by
    intro o ho
    exact Call.mem_of_mem_outermostFrom ho
  rw [arguments, List.pairwise_flatMap]
  constructor
  · intro o ho
    exact (pairwise_literals (hcall o ho)).imp fun hlt => by omega
  · apply (List.Pairwise.and_mem.1 (pairwise_outermost t)).imp
    rintro o o' ⟨ho, ho', hle⟩ c hc c' hc'
    have hfirst := bounds_of_mem_literals (hcall o ho) hc
    have hsecond := bounds_of_mem_literals (hcall o' ho') hc'
    omega

theorem kind_of_mem_arguments (h : c ∈ (ofText t).arguments) : c.kind = .argument := by
  rcases List.mem_flatMap.1 h with ⟨o, -, hliteral⟩
  exact kind_of_mem_literals hliteral

end Arguments

end Source

/-! ## The order of candidates -/

namespace Candidate

/-- The order of candidates: by their bases, and at the same base an attribute before a literal. -/
def IsBefore (a b : Candidate) : Prop :=
  a.base < b.base ∨ a.base = b.base ∧ a.kind = .attribute ∧ b.kind = .argument

/-- Candidates of one kind lie apart. -/
def IsApart (a b : Candidate) : Prop :=
  a.kind = b.kind → a.span.stop < b.base ∨ b.span.stop < a.base

theorem IsApart.symm {a b : Candidate} (h : a.IsApart b) : b.IsApart a := by
  intro hkind
  exact (h hkind.symm).symm

theorem IsApart.ne {a b : Candidate} (h : a.IsApart b) : a ≠ b := by
  rintro rfl
  have hlt := h rfl
  simp only [span] at hlt
  omega

end Candidate

/-- In a list without duplicates no two items stand in both orders. -/
theorem not_sublist_swap {α : Type} {l : List α} (hnodup : l.Nodup) {a b : α}
    (h : [a, b].Sublist l) : ¬ [b, a].Sublist l := by
  induction l with
  | nil => cases h
  | cons c rest ih =>
    rcases List.nodup_cons.1 hnodup with ⟨hnot, hrest⟩
    intro hswap
    rcases List.sublist_cons_iff.1 h with hlater | ⟨r, hr, hb⟩
    · rcases List.sublist_cons_iff.1 hswap with hlater' | ⟨r', hr', ha⟩
      · exact ih hrest hlater hlater'
      · cases hr'
        exact hnot (hlater.subset (List.mem_cons_of_mem _ List.mem_cons_self))
    · cases hr
      rcases List.sublist_cons_iff.1 hswap with hlater' | ⟨r', hr', ha⟩
      · exact hnot (hlater'.subset (List.mem_cons_of_mem _ List.mem_cons_self))
      · cases hr'
        exact hnot (hb.subset List.mem_cons_self)

namespace Source

variable (t : Text)

theorem mem_candidates {c : Candidate} :
    c ∈ (ofText t).candidates ↔ c ∈ (ofText t).attributes ∨ c ∈ (ofText t).arguments := by
  rw [candidates, List.mem_mergeSort, List.mem_append]

/-- Any two candidates of one kind lie apart. -/
theorem pairwise_isApart : (ofText t).candidates.Pairwise Candidate.IsApart := by
  rw [candidates, List.Perm.pairwise_iff Candidate.IsApart.symm (List.mergeSort_perm _ _),
    List.pairwise_append]
  refine ⟨?_, ?_, ?_⟩
  · exact (pairwise_attributes t).imp fun hlt _ => Or.inl hlt
  · exact (pairwise_arguments t).imp fun hlt _ => Or.inl hlt
  · intro a ha l hl hkind
    rw [(isDelimited_of_mem_attributes ha).1, kind_of_mem_arguments hl] at hkind
    cases hkind

theorem nodup_candidates : (ofText t).candidates.Nodup :=
  (pairwise_isApart t).imp Candidate.IsApart.ne

/-- At the same base the attribute stays in front of the literal. -/
theorem sublist_candidates {a l : Candidate} (ha : a ∈ (ofText t).attributes)
    (hl : l ∈ (ofText t).arguments) (hbase : a.base ≤ l.base) :
    [a, l].Sublist (ofText t).candidates := by
  apply List.pair_sublist_mergeSort (key_trans Candidate.base) (key_total Candidate.base) (decide_eq_true hbase)
  exact (List.singleton_sublist.2 ha).append (List.singleton_sublist.2 hl)

/-- Candidates are in document order, and those of one kind lie one behind the other. -/
theorem pairwise_candidates : (ofText t).candidates.Pairwise fun a b =>
    a.IsBefore b ∧ (a.kind = b.kind → a.span.stop < b.base) := by
  have hsorted : (ofText t).candidates.Pairwise fun a b => decide (a.base ≤ b.base) = true :=
    List.pairwise_mergeSort (key_trans Candidate.base) (key_total Candidate.base) _
  rw [List.pairwise_iff_forall_sublist]
  intro a b hab
  have hle := of_decide_eq_true (List.pairwise_iff_forall_sublist.1 hsorted hab)
  have hapart := List.pairwise_iff_forall_sublist.1 (pairwise_isApart t) hab
  have hsame : a.kind = b.kind → a.span.stop < b.base := by
    intro hkind
    rcases hapart hkind with hlt | hlt
    · exact hlt
    · simp only [Candidate.span] at hlt
      omega
  refine ⟨?_, hsame⟩
  by_cases hbase : a.base < b.base
  · exact Or.inl hbase
  · -- the bases are the same, so the kinds are not, and the attribute comes first
    right
    refine ⟨by omega, ?_⟩
    rcases (mem_candidates t).1 (hab.subset List.mem_cons_self) with ha | ha
    · rcases (mem_candidates t).1 (hab.subset (List.mem_cons_of_mem _ List.mem_cons_self)) with
        hb | hb
      · have hlt := hsame ((isDelimited_of_mem_attributes ha).1.trans
          (isDelimited_of_mem_attributes hb).1.symm)
        simp only [Candidate.span] at hlt
        omega
      · exact ⟨(isDelimited_of_mem_attributes ha).1, kind_of_mem_arguments hb⟩
    · rcases (mem_candidates t).1 (hab.subset (List.mem_cons_of_mem _ List.mem_cons_self)) with
        hb | hb
      · exact absurd (sublist_candidates t hb ha (by omega))
          (not_sublist_swap (nodup_candidates t) hab)
      · have hlt := hsame ((kind_of_mem_arguments ha).trans (kind_of_mem_arguments hb).symm)
        simp only [Candidate.span] at hlt
        omega

end Source

end ClassHighlight
