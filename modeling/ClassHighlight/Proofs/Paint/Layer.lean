import ClassHighlight.Paint.Terminal
import ClassHighlight.Proofs.Source.Search

/-!
# The decoration that is seen

The decorations of a terminal lie over each other, the most specific on top. The sort that puts them
in this order is stable, so among those of one category the one created last is on top. At each byte
the uppermost of those that cover it is seen.
-/

namespace ClassHighlight

namespace Category

/-- The categories, the least specific first. -/
def leastSpecificFirst : List Category := [.utility, .arbitrary, .variant, .important]

/-- One category is more specific than another. -/
def IsMoreSpecific (c other : Category) : Prop := [other, c].Sublist leastSpecificFirst

instance (c other : Category) : Decidable (c.IsMoreSpecific other) :=
  inferInstanceAs (Decidable ([other, c].Sublist leastSpecificFirst))

theorem isMoreSpecific_iff {c other : Category} :
    c.IsMoreSpecific other ↔ Terminal.specificity other < Terminal.specificity c := by
  cases c <;> cases other <;> decide

theorem eq_of_specificity_eq {c other : Category}
    (h : Terminal.specificity c = Terminal.specificity other) : c = other := by
  revert h
  cases c <;> cases other <;> decide

end Category

/-- A decoration has a span that covers the byte at an offset. -/
def Decoration.Paints (d : Decoration) (offset : Nat) : Prop :=
  ∃ s ∈ d.spans, s.start ≤ offset ∧ offset < s.stop

theorem Decoration.covers_iff {d : Decoration} {offset : Nat} :
    d.covers offset = true ↔ d.Paints offset := by
  rw [covers, List.any_eq_true]
  simp only [Span.contains_iff, Paints]

section StableSort

variable {α : Type} {key : α → Nat} {p : α → Bool}

/-- Elements with places are ordered by their keys, and among equal keys by their places. -/
theorem zipIdxLE_iff {x y : α × Nat} :
    List.zipIdxLE (fun a b => key a ≤ key b) x y = true ↔
      key x.1 < key y.1 ∨ key x.1 = key y.1 ∧ x.2 ≤ y.2 := by
  unfold List.zipIdxLE
  by_cases hle : key x.1 ≤ key y.1
  · rw [if_pos (decide_eq_true hle)]
    by_cases hge : key y.1 ≤ key x.1
    · rw [if_pos (decide_eq_true hge), decide_eq_true_iff]
      omega
    · rw [if_neg (by rw [decide_eq_true_iff]; exact hge)]
      simp only [true_iff]
      omega
  · rw [if_neg (by rw [decide_eq_true_iff]; exact hle)]
    simp only [Bool.false_eq_true, false_iff]
    omega

/-- In a stable sort, the last element of a kind is one with the greatest key of those of its kind,
and the last of these in the list that was sorted. -/
theorem exists_getElem?_of_getLast? (key : α → Nat) {l : List α} {a : α}
    (h : ((l.mergeSort fun x y => key x ≤ key y).filter p).getLast? = some a) :
    ∃ i : Nat, l[i]? = some a ∧ p a = true ∧
      ∀ (j : Nat) (b : α), l[j]? = some b → p b = true →
        key b < key a ∨ key b = key a ∧ j ≤ i := by
  -- the elements are told apart by where they stand, and sorted by that among equal keys
  let sorted := l.zipIdx.mergeSort (List.zipIdxLE fun x y => key x ≤ key y)
  have hsorted : sorted.Pairwise fun x y =>
      List.zipIdxLE (fun x y => key x ≤ key y) x y = true :=
    List.pairwise_mergeSort (List.zipIdxLE_trans (key_trans key))
      (List.zipIdxLE_total (key_total key)) _
  have hmap : sorted.map Prod.fst = l.mergeSort fun x y => key x ≤ key y := List.mergeSort_zipIdx
  rw [← hmap, List.filter_map, List.getLast?_map] at h
  obtain ⟨⟨a, i⟩, hlast, rfl⟩ := Option.map_eq_some_iff.1 h
  obtain ⟨others, hothers⟩ := List.getLast?_eq_some_iff.1 hlast
  have hmem : ∀ {j b}, l[j]? = some b ∧ p b = true ↔ (b, j) ∈ others ++ [(a, i)] := by
    intro j b
    rw [← hothers, List.mem_filter, List.mem_mergeSort, List.mem_zipIdx_iff_getElem?]
    rfl
  obtain ⟨ha, hp⟩ := hmem.2 (List.mem_append_right others (List.mem_singleton_self (a, i)))
  refine ⟨i, ha, hp, ?_⟩
  intro j b hb hpb
  cases List.mem_append.1 (hmem.1 ⟨hb, hpb⟩) with
  | inl hin =>
    have hpairwise := hsorted.filter (p ∘ Prod.fst)
    rw [hothers, List.pairwise_append] at hpairwise
    exact zipIdxLE_iff.1 (hpairwise.2.2 _ hin _ (List.mem_singleton_self _))
  | inr hin =>
    cases List.mem_singleton.1 hin
    exact Or.inr ⟨rfl, Nat.le_refl _⟩

/-- Of its kind, what stands before this element has no greater key, and what stands behind it a
smaller one. -/
theorem exists_of_getLast?_filter_mergeSort (key : α → Nat) {l : List α} {a : α}
    (h : ((l.mergeSort fun x y => key x ≤ key y).filter p).getLast? = some a) :
    ∃ front behind, l = front ++ a :: behind ∧ p a = true ∧
      (∀ b ∈ l, p b = true → key b ≤ key a) ∧ ∀ b ∈ behind, p b = true → key b < key a := by
  obtain ⟨i, ha, hp, hbest⟩ := exists_getElem?_of_getLast? key h
  obtain ⟨hlt, hget⟩ := List.getElem?_eq_some_iff.1 ha
  refine ⟨l.take i, l.drop (i + 1), ?_, hp, ?_, ?_⟩
  · rw [← hget, ← List.drop_eq_getElem_cons hlt, List.take_append_drop]
  · intro b hb hpb
    obtain ⟨j, hj⟩ := List.getElem?_of_mem hb
    have := hbest j b hj hpb
    omega
  · intro b hb hpb
    obtain ⟨j, hj⟩ := List.getElem?_of_mem hb
    rw [List.getElem?_drop] at hj
    have := hbest _ b hj hpb
    omega

end StableSort

namespace Terminal

variable {t : Terminal} {offset : Nat}

/-- A live decoration is seen at an offset: it paints the byte, and each live decoration that does
so is less specific, or as specific and not created later. -/
structure IsSeenAt (t : Terminal) (offset handle : Nat) (d : Decoration) : Prop where
  /-- It was not disposed. -/
  live : t.slots[handle]? = some (some d)
  /-- It has a span that covers the byte. -/
  paints : d.Paints offset
  /-- None is above it. -/
  top : ∀ (handle' : Nat) (d' : Decoration), t.slots[handle']? = some (some d') →
    d'.Paints offset →
    d.category.IsMoreSpecific d'.category ∨ d.category = d'.category ∧ handle' ≤ handle

/-- The style that is seen at an offset. -/
inductive IsStyleAt (t : Terminal) (offset : Nat) : Option Style → Prop
  /-- No live decoration covers the byte. -/
  | bare (h : ∀ (handle : Nat) (d : Decoration), t.slots[handle]? = some (some d) →
      ¬ d.Paints offset) :
    IsStyleAt t offset none
  /-- The byte is in the style of the decoration that is seen. -/
  | styled {handle : Nat} {d : Decoration} (h : t.IsSeenAt offset handle d) :
    IsStyleAt t offset (some d.style)

/-- What else paints the byte has a category with a smaller number, or was created earlier. -/
theorem IsSeenAt.below {handle handle' : Nat} {d d' : Decoration} (h : t.IsSeenAt offset handle d)
    (hlive : t.slots[handle']? = some (some d')) (hpaints : d'.Paints offset) :
    specificity d'.category < specificity d.category ∨
      specificity d.category = specificity d'.category ∧ handle' ≤ handle := by
  cases h.top handle' d' hlive hpaints with
  | inl hless => exact Or.inl (Category.isMoreSpecific_iff.1 hless)
  | inr hearlier => exact Or.inr ⟨congrArg specificity hearlier.1, hearlier.2⟩

/-- At most one decoration is seen. -/
theorem IsSeenAt.unique {handle handle' : Nat} {d d' : Decoration} (h : t.IsSeenAt offset handle d)
    (h' : t.IsSeenAt offset handle' d') : d = d' := by
  have hbelow := h.below h'.live h'.paints
  have habove := h'.below h.live h.paints
  have hhandle : handle = handle' := by omega
  subst hhandle
  exact Option.some.inj (Option.some.inj (h.live.symm.trans h'.live))

theorem IsStyleAt.unique {style style' : Option Style} (h : t.IsStyleAt offset style)
    (h' : t.IsStyleAt offset style') : style = style' := by
  cases h with
  | bare hbare =>
    cases h' with
    | bare _ => rfl
    | styled hseen => exact absurd hseen.paints (hbare _ _ hseen.live)
  | styled hseen =>
    cases h' with
    | bare hbare => exact absurd hseen.paints (hbare _ _ hseen.live)
    | styled hseen' => rw [hseen.unique hseen']

theorem mem_live_iff {d : Decoration} :
    d ∈ t.live ↔ ∃ handle : Nat, t.slots[handle]? = some (some d) := by
  rw [live, List.mem_filterMap, ← List.mem_iff_getElem?]
  constructor
  · intro ⟨slot, hslot, heq⟩
    have heq : slot = some d := heq
    rw [← heq]
    exact hslot
  · intro hmem
    exact ⟨some d, hmem, rfl⟩

/-- The last layer that covers a byte is the decoration that is seen. -/
theorem exists_isSeenAt {d : Decoration}
    (h : (t.layers.filter fun d => d.covers offset).getLast? = some d) :
    ∃ handle, t.IsSeenAt offset handle d := by
  obtain ⟨front, behind, hlive, hcovers, hle, hlt⟩ :=
    exists_of_getLast?_filter_mergeSort (fun d : Decoration => specificity d.category) h
  obtain ⟨before, rest, hslots, -, hrest⟩ := List.filterMap_eq_append_iff.1 hlive
  obtain ⟨disposed, slot, later, hsplit, -, hslot, hlater⟩ := List.filterMap_eq_cons_iff.1 hrest
  have hslot : slot = some d := hslot
  subst hslot hsplit
  have hslots' : t.slots = (before ++ disposed) ++ some d :: later := by
    rw [hslots, List.append_assoc]
  refine ⟨(before ++ disposed).length, ?_, Decoration.covers_iff.1 hcovers, ?_⟩
  · rw [hslots', List.getElem?_append_right (Nat.le_refl _), Nat.sub_self]
    rfl
  · intro handle' d' hd' hpaints
    rw [Category.isMoreSpecific_iff]
    have hcovers' := Decoration.covers_iff.2 hpaints
    cases Nat.lt_or_ge (before ++ disposed).length handle' with
    | inl hbehind =>
      -- it was created later, so it is less specific
      rw [hslots', List.getElem?_append_right (Nat.le_of_lt hbehind)] at hd'
      obtain ⟨k, hk⟩ : ∃ k, handle' - (before ++ disposed).length = k + 1 :=
        ⟨_, (Nat.sub_add_cancel (Nat.sub_pos_of_lt hbehind)).symm⟩
      rw [hk, List.getElem?_cons_succ] at hd'
      refine Or.inl (hlt d' ?_ hcovers')
      rw [← hlater]
      exact List.mem_filterMap.2 ⟨_, List.mem_of_getElem? hd', rfl⟩
    | inr hbefore =>
      cases Nat.lt_or_eq_of_le (hle d' (mem_live_iff.2 ⟨handle', hd'⟩) hcovers') with
      | inl hless => exact Or.inl hless
      | inr heq => exact Or.inr ⟨Category.eq_of_specificity_eq heq.symm, hbefore⟩

/-- The style that the layers give to a byte is the one that is seen. -/
theorem isStyleAt_styleAt (t : Terminal) (offset : Nat) :
    t.IsStyleAt offset (styleAt t.layers offset) := by
  unfold styleAt
  cases hlast : (t.layers.filter fun d => d.covers offset).getLast? with
  | none =>
    refine IsStyleAt.bare fun handle d hd hpaints => ?_
    have hnone := List.getLast?_eq_none_iff.1 hlast
    have hmem : d ∈ t.layers := List.mem_mergeSort.2 (mem_live_iff.2 ⟨handle, hd⟩)
    exact List.filter_eq_nil_iff.1 hnone d hmem (Decoration.covers_iff.2 hpaints)
  | some d =>
    obtain ⟨handle, hseen⟩ := exists_isSeenAt hlast
    exact IsStyleAt.styled hseen

theorem isStyleAt_iff {style : Option Style} :
    t.IsStyleAt offset style ↔ styleAt t.layers offset = style := by
  constructor
  · intro h
    exact (isStyleAt_styleAt t offset).unique h
  · intro h
    rw [← h]
    exact isStyleAt_styleAt t offset

end Terminal

end ClassHighlight
