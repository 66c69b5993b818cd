import Mathlib.Data.List.Flatten
import ClassHighlight.Proofs.Highlight
import ClassHighlight.Proofs.Source.Code
import ClassHighlight.Proofs.Source.Order

/-!
# What is selected around a cursor

Of the calls around a cursor the one that starts first should be chosen. It is, unless an outermost
call starts before it, ends within it, and so cuts it off from the cursor; calls in code never do
that to each other. Whatever is chosen, the candidates around a cursor are some of those of the
whole document, in the same order, and so are their highlights.
-/

namespace ClassHighlight

/-- One call starts before another one and ends within it, before an offset that the other one
encloses. -/
def Call.CutsOff (o c : Call) (offset : Nat) : Prop :=
  o.start < c.start ∧ c.start < o.stop ∧ o.stop < offset

instance (o c : Call) (offset : Nat) : Decidable (o.CutsOff c offset) :=
  inferInstanceAs (Decidable (_ ∧ _ ∧ _))

theorem Call.encloses_iff {call : Call} {offset : Nat} :
    call.encloses offset = true ↔ call.start ≤ offset ∧ offset ≤ call.stop := by
  simp [encloses]

namespace Source

/-- Of the calls around an offset, the one that starts first. -/
structure IsFirstAround (source : Source) (c : Call) (offset : Nat) : Prop where
  /-- It is a call of the document. -/
  mem : c ∈ source.calls
  /-- It encloses the offset. -/
  encloses : c.encloses offset = true
  /-- All others that do start later. -/
  first : ∀ other ∈ source.calls, other.encloses offset = true → c.start ≤ other.start

/-- The call whose literals are the candidates around an offset, where no attribute is. -/
def callAt? (source : Source) (offset : Nat) : Option Call :=
  (Call.outermost source.calls).find? fun call => call.encloses offset

/-! ## Outermost calls -/

section Outermost

variable {t : Text} {c o : Call} {offset : Nat}

/-- A call is kept exactly when no call that is kept starts before it and ends behind its start. -/
theorem mem_outermost_iff (hc : c ∈ (ofText t).calls) :
    c ∈ Call.outermost (ofText t).calls ↔
      ∀ o ∈ Call.outermost (ofText t).calls, ¬ (o.start < c.start ∧ c.start < o.stop) := by
  constructor
  · rintro hkept o ho ⟨hlt, hwithin⟩
    have hne : o ≠ c := by
      rintro rfl
      omega
    have hpositive := start_lt_stop_of_mem_calls hc
    rcases or_swap_of_pairwise (pairwise_outermost t) ho hkept hne with hle | hle <;> omega
  · intro hnone
    rcases @Call.exists_outermostFrom _ (pairwise_calls t)
      (fun _ hc => start_lt_stop_of_mem_calls hc) 0 c hc with hlt | ⟨o, ho, rfl | hlt, hwithin⟩
    · omega
    · exact ho
    · exact absurd ⟨hlt, hwithin⟩ (hnone o ho)

/-- The call chosen at an offset is an outermost one that encloses it. -/
theorem callAt?_spec (h : (ofText t).callAt? offset = some c) :
    c ∈ Call.outermost (ofText t).calls ∧ c.start ≤ offset ∧ offset ≤ c.stop := by
  unfold callAt? at h
  have hencloses : c.encloses offset = true := by simpa using List.find?_some h
  exact ⟨List.mem_of_find?_eq_some h, Call.encloses_iff.1 hencloses⟩

/-- An outermost call is chosen if it starts before all others that enclose the offset. -/
theorem callAt?_of_mem_outermost (hfirst : (ofText t).IsFirstAround c offset)
    (hc : c ∈ Call.outermost (ofText t).calls) : (ofText t).callAt? offset = some c := by
  cases hfound : (ofText t).callAt? offset with
  | none => exact absurd hfirst.encloses (List.find?_eq_none.1 hfound c hc)
  | some found =>
    -- the one that is found encloses the offset too, and no other one stands before it
    rcases List.find?_eq_some_iff_append.1 hfound with ⟨hencloses, before, behind, heq, hbefore⟩
    have hkept : found ∈ Call.outermost (ofText t).calls := List.mem_of_find?_eq_some hfound
    have hle := hfirst.first found (Call.mem_of_mem_outermostFrom hkept) hencloses
    have horder := pairwise_outermost t
    rw [heq] at hc horder
    rcases List.mem_append.1 hc with hin | hin
    · have hnot := hbefore c hin
      rw [hfirst.encloses] at hnot
      cases hnot
    · rcases List.mem_cons.1 hin with rfl | hin
      · rfl
      · have hapart := List.rel_of_pairwise_cons (List.pairwise_append.1 horder).2.1 hin
        have hpositive := start_lt_stop_of_mem_calls (Call.mem_of_mem_outermostFrom hkept)
        omega

/-- Where the first call around an offset is not an outermost one, an outermost call cuts it off. -/
theorem cutsOff_iff (hfirst : (ofText t).IsFirstAround c offset) (ho : o ∈ (ofText t).calls) :
    o.CutsOff c offset ↔ o.start < c.start ∧ c.start < o.stop := by
  constructor
  · rintro ⟨hlt, hwithin, -⟩
    exact ⟨hlt, hwithin⟩
  · rintro ⟨hlt, hwithin⟩
    refine ⟨hlt, hwithin, Nat.lt_of_not_le fun hle => ?_⟩
    -- otherwise the outermost call would enclose the offset, and it starts first
    have hc := Call.encloses_iff.1 hfirst.encloses
    have hencloses : o.encloses offset = true := Call.encloses_iff.2 ⟨by omega, hle⟩
    have := hfirst.first o ho hencloses
    omega

/-- The first call around an offset is chosen exactly when no outermost call cuts it off. -/
theorem callAt?_eq_some_iff (hfirst : (ofText t).IsFirstAround c offset) :
    (ofText t).callAt? offset = some c ↔
      ∀ o ∈ Call.outermost (ofText t).calls, ¬ o.CutsOff c offset := by
  constructor
  · intro hfound o ho hcuts
    have hkept := (callAt?_spec hfound).1
    exact (mem_outermost_iff hfirst.mem).1 hkept o ho ⟨hcuts.1, hcuts.2.1⟩
  · intro hnone
    apply callAt?_of_mem_outermost hfirst
    rw [mem_outermost_iff hfirst.mem]
    intro o ho hcrosses
    exact hnone o ho ((cutsOff_iff hfirst (Call.mem_of_mem_outermostFrom ho)).2 hcrosses)

/-- A call in code does not cut off another one in code: they are nested. -/
theorem not_cutsOff_of_isCode (ho : o ∈ (ofText t).calls) (hocode : (ofText t).IsCode o.start)
    (hccode : (ofText t).IsCode c.start) (hfirst : (ofText t).IsFirstAround c offset) :
    ¬ o.CutsOff c offset := by
  rintro ⟨hlt, hwithin, hbefore⟩
  have hnested := nested_of_isCode ho hfirst.mem hocode hccode hlt hwithin
  have hc := Call.encloses_iff.1 hfirst.encloses
  omega

end Outermost

/-! ## The candidates around a cursor -/

section Around

variable {t : Text} {c : Call} {offset : Nat}

/-- Where no attribute is, the candidates around a cursor are the literals of one call. -/
theorem selected_cursor_of_none
    (hnone : ∀ a ∈ (ofText t).attributes, a.encloses offset = false) :
    (ofText t).selected .cursor (some offset) =
      match (ofText t).callAt? offset with
      | some call => (ofText t).literals call
      | none => [] := by
  have hfind : ((ofText t).attributes.find? fun a => a.encloses offset) = none := by
    rw [List.find?_eq_none]
    intro a ha
    rw [hnone a ha]
    decide
  show (ofText t).candidatesAt offset = _
  unfold candidatesAt
  rw [hfind]
  rfl

/-- Where no attribute is around a cursor, the outermost call around it is chosen exactly when no
other outermost call cuts it off, and then all its literals are selected. If it is cut off, only
literals behind the call that does so are. Calls in code do not cut each other off. -/
theorem outermost_call_wins_iff (hnone : ∀ a ∈ (ofText t).attributes, a.encloses offset = false)
    (hfirst : (ofText t).IsFirstAround c offset) :
    ((ofText t).callAt? offset = some c ↔
        ∀ o ∈ Call.outermost (ofText t).calls, ¬ o.CutsOff c offset) ∧
      ((∀ o ∈ Call.outermost (ofText t).calls, ¬ o.CutsOff c offset) →
        (ofText t).selected .cursor (some offset) = (ofText t).literals c) ∧
      (∀ o ∈ Call.outermost (ofText t).calls, o.CutsOff c offset →
        ∀ l ∈ (ofText t).selected .cursor (some offset), o.stop < l.base) ∧
      ((ofText t).IsCode c.start →
        (∀ o ∈ Call.outermost (ofText t).calls, o.start < c.start → c.start < o.stop →
          (ofText t).IsCode o.start) →
        (ofText t).selected .cursor (some offset) = (ofText t).literals c) := by
  have hchosen : (∀ o ∈ Call.outermost (ofText t).calls, ¬ o.CutsOff c offset) →
      (ofText t).selected .cursor (some offset) = (ofText t).literals c := by
    intro hnot
    rw [selected_cursor_of_none hnone, (callAt?_eq_some_iff hfirst).2 hnot]
  refine ⟨callAt?_eq_some_iff hfirst, hchosen, ?_, ?_⟩
  · -- the call that is chosen instead encloses the cursor, so it starts behind the other one
    intro o ho hcuts l hl
    rw [selected_cursor_of_none hnone] at hl
    cases hfound : (ofText t).callAt? offset with
    | none =>
      rw [hfound] at hl
      cases hl
    | some found =>
      rw [hfound] at hl
      rcases callAt?_spec hfound with ⟨hkept, hstart, hstop⟩
      have hbounds := bounds_of_mem_literals (Call.mem_of_mem_outermostFrom hkept) hl
      have hc := Call.encloses_iff.1 hfirst.encloses
      rcases hcuts with ⟨hlt, hwithin, hbefore⟩
      have hne : o ≠ found := by
        rintro rfl
        omega
      rcases or_swap_of_pairwise (pairwise_outermost t) ho hkept hne with hle | hle <;> omega
  · intro hccode hocode
    apply hchosen
    intro o ho hcuts
    exact not_cutsOff_of_isCode (Call.mem_of_mem_outermostFrom ho)
      (hocode o ho hcuts.1 hcuts.2.1) hccode hfirst hcuts

/-- Between two calls the first one wins, with the literals of the call nested in it. -/
theorem outermost_call_wins_between :
    (∀ a ∈ (ofText "cn(clsx('a'))cn('b')".toList).attributes, a.encloses 13 = false) ∧
    (ofText "cn(clsx('a'))cn('b')".toList).IsFirstAround ⟨.cn, "clsx('a')".toList, 3, 0, 13⟩ 13 ∧
    (ofText "cn(clsx('a'))cn('b')".toList).selected .cursor (some 13) =
      (ofText "cn(clsx('a'))cn('b')".toList).literals ⟨.cn, "clsx('a')".toList, 3, 0, 13⟩ ∧
    (ofText "cn(clsx('a'))cn('b')".toList).literals ⟨.cn, "clsx('a')".toList, 3, 0, 13⟩ =
      [⟨['a'], 9, .argument, .single⟩] := by
  have hnone : ∀ a ∈ (ofText "cn(clsx('a'))cn('b')".toList).attributes,
      a.encloses 13 = false := by
    decide +kernel
  have hfirst : (ofText "cn(clsx('a'))cn('b')".toList).IsFirstAround
      ⟨.cn, "clsx('a')".toList, 3, 0, 13⟩ 13 :=
    ⟨by decide +kernel, by decide +kernel, by decide +kernel⟩
  have hnot : ∀ o ∈ Call.outermost (ofText "cn(clsx('a'))cn('b')".toList).calls,
      ¬ o.CutsOff ⟨.cn, "clsx('a')".toList, 3, 0, 13⟩ 13 := by
    decide +kernel
  exact ⟨hnone, hfirst, (outermost_call_wins_iff hnone hfirst).2.1 hnot, by decide +kernel⟩

/-- A call whose name stands in a string is cut off by the call that the string belongs to, and
behind that one nothing is selected, although the cursor is in a call that holds a literal. -/
theorem nothing_selected_in_quoted_call :
    (∀ a ∈ (ofText "cn(\"cn(\")\")".toList).attributes, a.encloses 10 = false) ∧
    (ofText "cn(\"cn(\")\")".toList).IsFirstAround ⟨.cn, "\")\"".toList, 7, 4, 11⟩ 10 ∧
    (ofText "cn(\"cn(\")\")".toList).literals ⟨.cn, "\")\"".toList, 7, 4, 11⟩ =
      [⟨[')'], 8, .argument, .double⟩] ∧
    (ofText "cn(\"cn(\")\")".toList).selected .cursor (some 10) = [] := by
  refine ⟨by decide +kernel, ⟨?_, ?_, ?_⟩, by decide +kernel, by decide +kernel⟩ <;>
    decide +kernel

/-! ## The cursor only narrows -/

/-- The literals of an outermost call are candidates of the document in the same order. -/
theorem literals_sublist_candidates (hc : c ∈ Call.outermost (ofText t).calls) :
    ((ofText t).literals c).Sublist (ofText t).candidates := by
  have hcall := Call.mem_of_mem_outermostFrom hc
  -- the literals are in the order of their bases, so sorting keeps them in their order
  apply List.sublist_mergeSort (key_trans Candidate.base) (key_total Candidate.base)
  · apply (pairwise_base_literals hcall).imp
    intro a b hlt
    exact decide_eq_true (Nat.le_of_lt hlt)
  · have harguments := (List.singleton_sublist.2 hc).flatMap (ofText t).literals
    rw [List.flatMap_singleton] at harguments
    exact harguments.trans (List.sublist_append_right _ _)

/-- The candidates around an offset are candidates of the document in the same order. -/
theorem candidatesAt_sublist (t : Text) (offset : Nat) :
    ((ofText t).candidatesAt offset).Sublist (ofText t).candidates := by
  unfold candidatesAt
  split
  · -- an attribute
    rename_i a hfound
    rw [List.singleton_sublist, mem_candidates]
    exact Or.inl (List.mem_of_find?_eq_some hfound)
  · split
    · rename_i call hfound
      exact literals_sublist_candidates (List.mem_of_find?_eq_some hfound)
    · exact List.nil_sublist _

theorem selected_sublist (t : Text) (cursor? cursor?' : Option Nat) :
    ((ofText t).selected .cursor cursor?).Sublist ((ofText t).selected .full cursor?') := by
  cases cursor? with
  | none => exact List.nil_sublist _
  | some offset => exact candidatesAt_sublist t offset

end Around

end Source

/-- Around a cursor the candidates are some of those of the whole document, in the same order, and
in each category so are the highlights. -/
theorem cursor_narrows (t : Text) (cursor? cursor?' : Option Nat) :
    ((Source.ofText t).selected .cursor cursor?).Sublist
        ((Source.ofText t).selected .full cursor?') ∧
      ∀ category, ((scan t cursor? .cursor).get category).Sublist
        ((scan t cursor?' .full).get category) := by
  have hselected := Source.selected_sublist t cursor? cursor?'
  refine ⟨hselected, ?_⟩
  intro category
  rw [get_scan, get_scan]
  exact (hselected.flatMap Candidate.tokens).flatMap fun token => token.spans category

end ClassHighlight
