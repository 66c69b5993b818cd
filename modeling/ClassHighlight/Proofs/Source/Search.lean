import Mathlib.Data.List.Infix
import Mathlib.Data.List.Perm.Basic
import ClassHighlight.Proofs.Source.RegionWalk
import ClassHighlight.Source.Call

/-!
# Searching for names

Calls and attributes are looked for at every place of a document. A search for one name after the
other, which goes on behind each place where it has found the name, comes to the same places: no
name overlaps with itself. Put in order, what it finds is the same.
-/

namespace ClassHighlight

/-! ## Sorting by a number -/

section Key

variable {α : Type} (key : α → Nat)

theorem key_trans (a b c : α) (hab : decide (key a ≤ key b) = true)
    (hbc : decide (key b ≤ key c) = true) : decide (key a ≤ key c) = true :=
  decide_eq_true (Nat.le_trans (of_decide_eq_true hab) (of_decide_eq_true hbc))

theorem key_total (a b : α) : (decide (key a ≤ key b) || decide (key b ≤ key a)) = true := by
  rw [Bool.or_eq_true, decide_eq_true_iff, decide_eq_true_iff]
  exact Nat.le_total _ _

/-- Sorting puts a list into the one ascending order that it has. -/
theorem mergeSort_eq_of_perm {l l' : List α} (h : l.Pairwise fun a b => key a < key b)
    (hperm : l.Perm l') : l'.mergeSort (fun a b => key a ≤ key b) = l := by
  have hsorted : (l'.mergeSort fun a b => key a ≤ key b).Pairwise
      fun a b => decide (key a ≤ key b) = true :=
    List.pairwise_mergeSort (key_trans key) (key_total key) _
  have hle : l.Pairwise fun a b => decide (key a ≤ key b) = true := by
    apply h.imp
    intro a b hlt
    exact decide_eq_true (Nat.le_of_lt hlt)
  have hsame : (l'.mergeSort fun a b => key a ≤ key b).Perm l :=
    (List.mergeSort_perm _ _).trans hperm.symm
  apply hsame.eq_of_pairwise ?_ hsorted hle
  intro a b ha hb hab hba
  -- two items with one key are the same
  by_contra hne
  have hab := of_decide_eq_true hab
  have hba := of_decide_eq_true hba
  have := or_swap_of_pairwise h (hsame.mem_iff.1 ha) hb hne
  omega

end Key

/-! ## What stands before and behind a name -/

/-- A pattern stands where what is left of the bytes starts with it. -/
theorem getElem?_of_prefix_drop {bs pattern : List UInt8} {i k : Nat}
    (h : pattern <+: bs.drop i) (hk : k < pattern.length) : bs[i + k]? = pattern[k]? := by
  rcases h with ⟨rest, hrest⟩
  rw [← List.getElem?_drop, ← hrest, List.getElem?_append_left hk]

/-- Only blanks stand from one index up to another one. -/
def AreBlanks (bs : List UInt8) (start stop : Nat) : Prop :=
  start ≤ stop ∧ ∀ j, start ≤ j → j < stop → ∃ b, bs[j]? = some b ∧ isMarkupBlank b = true

namespace Mark

theorem dropBlanks_of_getElem? {bs : List UInt8} {i : Nat} {b : UInt8} (hb : bs[i]? = some b) :
    dropBlanks ((ofBytes bs).drop i) =
      if isMarkupBlank b then dropBlanks ((ofBytes bs).drop (i + 1))
      else (ofBytes bs).drop i := by
  rcases exists_mark hb with ⟨m, -, hbyte, hdrop⟩
  unfold dropBlanks
  rw [hdrop, List.dropWhile_cons, hbyte]

/-- Dropping blanks goes forward over blanks only. -/
theorem dropBlanks_drop (bs : List UInt8) (i : Nat) :
    ∃ k, AreBlanks bs i k ∧ dropBlanks ((ofBytes bs).drop i) = (ofBytes bs).drop k := by
  induction hn : bs.length - i generalizing i with
  | zero =>
    refine ⟨i, ⟨Nat.le_refl _, by omega⟩, ?_⟩
    rw [ofBytes_drop_of_le (by omega)]
    rfl
  | succ n ih =>
    have hb := List.getElem?_eq_getElem (show i < bs.length by omega)
    have hunfold := dropBlanks_of_getElem? hb
    by_cases hblank : isMarkupBlank bs[i] = true
    · -- one blank more, and then those of the rest
      rw [if_pos hblank] at hunfold
      rcases ih (i + 1) (by omega) with ⟨k, ⟨hk, hblanks⟩, hrest⟩
      refine ⟨k, ⟨by omega, ?_⟩, hunfold.trans hrest⟩
      intro j hj hlt
      rcases Nat.eq_or_lt_of_le hj with rfl | hj
      · exact ⟨bs[i], hb, hblank⟩
      · exact hblanks j hj hlt
    · rw [if_neg hblank] at hunfold
      exact ⟨i, ⟨Nat.le_refl _, by omega⟩, hunfold⟩

/-- Dropping blanks stops at the first byte that is none. -/
theorem dropBlanks_eq_drop {bs : List UInt8} {start stop : Nat} {b : UInt8}
    (hblanks : AreBlanks bs start stop) (hb : bs[stop]? = some b)
    (hstop : isMarkupBlank b = false) :
    dropBlanks ((ofBytes bs).drop start) = (ofBytes bs).drop stop := by
  rcases hblanks with ⟨hle, hall⟩
  induction hk : stop - start generalizing start with
  | zero =>
    obtain rfl : start = stop := by omega
    rw [dropBlanks_of_getElem? hb, if_neg (by rw [hstop]; decide)]
  | succ k ih =>
    rcases hall start (Nat.le_refl _) (by omega) with ⟨b', hb', hblank⟩
    rw [dropBlanks_of_getElem? hb', if_pos hblank]
    refine ih (by omega) ?_ (by omega)
    intro j hj hlt
    exact hall j (by omega) hlt

/-- The byte before a mark, if there is one, is not of some kind. -/
theorem any_previous_eq_false_iff {bs : List UInt8} {i : Nat} {m : Mark} (p : UInt8 → Bool)
    (hm : (ofBytes bs)[i]? = some m) :
    m.previous.any p = false ↔ ∀ b, 1 ≤ i → bs[i - 1]? = some b → p b = false := by
  constructor
  · intro hnone b hpos hb
    rw [previous_of_getElem? hm hpos hb] at hnone
    exact hnone
  · intro hall
    cases hprevious : m.previous with
    | none => rfl
    | some b =>
      rw [eq_ofIndex hm] at hprevious
      have hlast : (bs.take i).getLast? = some b := hprevious
      have hpos : 1 ≤ i := by
        by_contra hzero
        rw [show i = 0 by omega, List.take_zero] at hlast
        cases hlast
      have hlt := lt_length_of_getElem? hm
      rw [List.getLast?_take, if_neg (by omega), List.getElem?_eq_getElem (by omega),
        Option.some_or] at hlast
      exact hall b hpos ((List.getElem?_eq_getElem (by omega)).trans hlast)

/-! ## Occurrences -/

/-- What is left at the places where a search finds a pattern, behind the first `skip` marks. Behind
each of these places the search goes on after the pattern. -/
def occurrences (pattern : List UInt8) : (skip : Nat) → List Mark → List (List Mark)
  | _, [] => []
  | skip + 1, _ :: rest => occurrences pattern skip rest
  | 0, m :: rest =>
    if startsWith pattern (m :: rest) then
      (m :: rest) :: occurrences pattern (pattern.length - 1) rest
    else
      occurrences pattern 0 rest

/-- No end of a pattern, other than all of it, is one of its starts. -/
def IsUnbordered (pattern : List UInt8) : Prop :=
  ∀ k < pattern.length, 0 < k → ¬ pattern.drop k <+: pattern

instance (pattern : List UInt8) : Decidable (IsUnbordered pattern) :=
  inferInstanceAs (Decidable (∀ k < pattern.length, 0 < k → ¬ pattern.drop k <+: pattern))

/-- Where an unbordered pattern stands, it does not start again before it ends. -/
theorem startsWith_drop_eq_false {pattern : List UInt8} (hpattern : IsUnbordered pattern)
    {ms : List Mark} (h : startsWith pattern ms = true) {k : Nat} (hpos : 0 < k)
    (hk : k < pattern.length) : startsWith pattern (ms.drop k) = false := by
  rw [← Bool.not_eq_true]
  intro hagain
  rw [startsWith_iff] at h hagain
  rw [List.map_drop] at hagain
  have hend : pattern.drop k <+: (ms.map byte).drop k := h.drop k
  apply hpattern k hk hpos
  apply List.prefix_of_prefix_length_le hend hagain
  rw [List.length_drop]
  omega

/-- What can only stand where an unbordered pattern does is found by the search for the pattern. -/
theorem filterMap_occurrences {α : Type} {pattern : List UInt8} (hpattern : IsUnbordered pattern)
    {found? : List Mark → Option α} (hnil : found? [] = none)
    (hfound : ∀ ms a, found? ms = some a → startsWith pattern ms = true) {skip : Nat}
    {ms : List Mark} (hskip : ∀ k < skip, startsWith pattern (ms.drop k) = false) :
    (occurrences pattern skip ms).filterMap found? = ms.tails.filterMap found? := by
  have hnone : ∀ ms, startsWith pattern ms = false → found? ms = none := by
    intro ms hnot
    cases ha : found? ms with
    | none => rfl
    | some a =>
      rw [hfound ms a ha] at hnot
      cases hnot
  induction ms generalizing skip with
  | nil =>
    rw [occurrences, List.tails, List.filterMap_cons_none hnil]
  | cons m rest ih =>
    rw [List.tails_cons]
    cases skip with
    | succ skip =>
      -- nothing is found among the marks that are passed over
      have hhere : startsWith pattern (m :: rest) = false := hskip 0 (Nat.succ_pos _)
      rw [occurrences, List.filterMap_cons_none (hnone _ hhere)]
      apply ih
      intro k hk
      exact hskip (k + 1) (by omega)
    | zero =>
      rw [occurrences]
      by_cases hstarts : startsWith pattern (m :: rest) = true
      · rw [if_pos hstarts, List.filterMap_cons, List.filterMap_cons, ih]
        intro k hk
        exact startsWith_drop_eq_false hpattern hstarts (Nat.succ_pos k) (by omega)
      · rw [if_neg hstarts, List.filterMap_cons_none (hnone _ (by simpa using hstarts))]
        apply ih
        intro k hk
        omega

end Mark

/-! ## Searches at every place -/

section Found

variable {α β : Type}

/-- What is found of some items at the places among some marks, one place after the other. -/
def foundFrom (found? : β → List Mark → Option α) (items : List β) (ms : List Mark) : List α :=
  ms.tails.flatMap fun ms => items.filterMap fun item => found? item ms

variable {found? : β → List Mark → Option α} {items : List β} {ms : List Mark}

theorem foundFrom_cons (m : Mark) :
    foundFrom found? items (m :: ms) =
      (items.filterMap fun item => found? item (m :: ms)) ++ foundFrom found? items ms := by
  rw [foundFrom, List.tails_cons, List.flatMap_cons]
  rfl

theorem mem_foundFrom {a : α} :
    a ∈ foundFrom found? items ms ↔ ∃ i, ∃ item ∈ items, found? item (ms.drop i) = some a := by
  unfold foundFrom
  simp only [List.mem_flatMap, List.mem_tails, List.mem_filterMap]
  constructor
  · rintro ⟨ms', hsuffix, item, hitem, ha⟩
    rw [List.suffix_iff_eq_drop.1 hsuffix] at ha
    exact ⟨_, item, hitem, ha⟩
  · rintro ⟨i, item, hitem, ha⟩
    exact ⟨ms.drop i, List.drop_suffix i ms, item, hitem, ha⟩

/-- What is found is in order if what is found further on comes later, and at one place at most one
item is found. -/
theorem pairwise_foundFrom {R : α → α → Prop} (hitems : items.Nodup)
    (hnil : ∀ item, found? item [] = none)
    (hsame : ∀ i, ∀ item ∈ items, ∀ item' ∈ items, ∀ a a', found? item (ms.drop i) = some a →
      found? item' (ms.drop i) = some a' → item = item')
    (hlater : ∀ i j, i < j → ∀ item ∈ items, ∀ item' ∈ items, ∀ a a',
      found? item (ms.drop i) = some a → found? item' (ms.drop j) = some a' → R a a') :
    (foundFrom found? items ms).Pairwise R := by
  induction ms with
  | nil =>
    have hempty : foundFrom found? items [] = [] := by
      rw [List.eq_nil_iff_forall_not_mem]
      intro a ha
      rcases mem_foundFrom.1 ha with ⟨i, item, -, hitem⟩
      rw [List.drop_nil, hnil] at hitem
      cases hitem
    rw [hempty]
    exact .nil
  | cons m rest ih =>
    rw [foundFrom_cons, List.pairwise_append]
    refine ⟨?_, ?_, ?_⟩
    · -- of two different items only one is found at the first mark
      rw [List.pairwise_filterMap]
      apply (List.Pairwise.and_mem.1 hitems).imp
      rintro item item' ⟨hitem, hitem', hne⟩ a ha a' ha'
      exact absurd (hsame 0 item hitem item' hitem' a a' ha ha') hne
    · apply ih
      · intro i
        exact hsame (i + 1)
      · intro i j hlt
        exact hlater (i + 1) (j + 1) (by omega)
    · -- all that is found among the other marks is found further on
      intro a ha a' ha'
      rcases List.mem_filterMap.1 ha with ⟨item, hitem, ha⟩
      rcases mem_foundFrom.1 ha' with ⟨j, item', hitem', ha'⟩
      exact hlater 0 (j + 1) (by omega) item hitem item' hitem' a a' ha ha'

/-- Looking for one item after the other finds the same, in another order. -/
theorem foundFrom_perm (found? : β → List Mark → Option α) (items : List β) (ms : List Mark) :
    (foundFrom found? items ms).Perm
      (items.flatMap fun item => ms.tails.filterMap (found? item)) := by
  unfold foundFrom
  induction items with
  | nil => simp
  | cons item items ih =>
    have hfirst : (ms.tails.flatMap fun ms => (found? item ms).toList) =
        ms.tails.filterMap (found? item) := (List.filterMap_eq_flatMap_toList _ _).symm
    have hsplit : (fun ms => (item :: items).filterMap fun item => found? item ms) =
        fun ms => (found? item ms).toList ++ items.filterMap fun item => found? item ms := by
      funext ms
      rw [List.filterMap_cons]
      cases found? item ms <;> rfl
    rw [hsplit, List.flatMap_cons, ← hfirst]
    exact (List.flatMap_append_perm ms.tails _ _).symm.trans (ih.append_left _)

/-- Searching for the patterns of one item after the other, and sorting what is found, gives what is
found at every place, if that is in order. -/
theorem foundFrom_eq_mergeSort {pattern : β → List UInt8} (key : α → Nat)
    (hsorted : (foundFrom found? items ms).Pairwise fun a b => key a < key b)
    (hpattern : ∀ item ∈ items, Mark.IsUnbordered (pattern item))
    (hnil : ∀ item, found? item [] = none)
    (hfound : ∀ item ms a, found? item ms = some a → Mark.startsWith (pattern item) ms = true) :
    foundFrom found? items ms =
      (items.flatMap fun item =>
        (Mark.occurrences (pattern item) 0 ms).filterMap (found? item)).mergeSort
          fun a b => key a ≤ key b := by
  have hpass : ∀ item ∈ items,
      (Mark.occurrences (pattern item) 0 ms).filterMap (found? item) =
        ms.tails.filterMap (found? item) := by
    intro item hitem
    apply Mark.filterMap_occurrences (hpattern item hitem) (hnil item) (hfound item)
    intro k hk
    omega
  rw [List.flatMap_congr hpass]
  exact (mergeSort_eq_of_perm key hsorted (foundFrom_perm found? items ms)).symm

end Found

end ClassHighlight
