import Mathlib.Data.Fin.Basic
import Mathlib.Data.List.DropRight
import Mathlib.Data.Set.List
import ClassHighlight.Session.Broadcast

/-!
# Receivers that follow

A handler reads by asking its channel, up to twice: `Reads` says what comes of this. `Follows` says
how a receiver stands to the events that were sent to it: it was told of all but the last few, the
last of them are those that the channel keeps, and it has missed only what was followed by enough
others. Sending and reading go from one instance of it to the next.
-/

namespace ClassHighlight

/-! ## The last elements of a list -/

section Last

variable {α : Type} {xs ys : List α} {n : Nat}

theorem length_rtake (xs : List α) (n : Nat) : (xs.rtake n).length = min n xs.length := by
  rw [List.rtake, List.length_drop]
  omega

theorem rtake_of_length_le (h : xs.length ≤ n) : xs.rtake n = xs := by
  rw [List.rtake, Nat.sub_eq_zero_of_le h, List.drop_zero]

/-- The ends of a list that have one length are the same. -/
theorem eq_of_suffix {zs : List α} (hx : xs <:+ zs) (hy : ys <:+ zs)
    (hlength : xs.length = ys.length) : xs = ys :=
  (List.suffix_of_suffix_length_le hx hy hlength.le).eq_of_length hlength

/-- The end of a list is what it ends with. -/
theorem rtake_length_of_suffix (h : xs <:+ ys) : ys.rtake xs.length = xs := by
  refine eq_of_suffix (List.drop_suffix _ _) h ?_
  rw [length_rtake, Nat.min_eq_left h.length_le]

theorem rtake_suffix_of_le {m : Nat} (h : m ≤ n) (xs : List α) : xs.rtake m <:+ xs.rtake n := by
  refine List.suffix_of_suffix_length_le (List.drop_suffix _ _) (List.drop_suffix _ _) ?_
  rw [length_rtake, length_rtake]
  omega

/-- The last elements of a list end with those of any shorter end of it. -/
theorem rtake_suffix_rtake (h : xs <:+ ys) (n : Nat) : xs.rtake n <:+ ys.rtake n := by
  obtain ⟨front, rfl⟩ := h
  rw [List.rtake, List.rtake, List.length_append]
  by_cases hn : n ≤ xs.length
  · have hdrop : front.length + xs.length - n = front.length + (xs.length - n) := by omega
    rw [hdrop, List.drop_append]
    simp
  · rw [Nat.sub_eq_zero_of_le (by omega), List.drop_zero]
    have hle : front.length + xs.length - n ≤ front.length := by omega
    rw [List.drop_append_of_le_length hle]
    exact List.suffix_append _ _

/-- The last elements of a longer list are among the last ones before and what comes behind them. -/
theorem rtake_concat (xs : List α) (x : α) (n : Nat) :
    (xs ++ [x]).rtake n = (xs.rtake n ++ [x]).rtake n := by
  have hsuffix : xs.rtake n ++ [x] <:+ xs ++ [x] := by
    obtain ⟨front, hfront⟩ := List.drop_suffix (xs.length - n) xs
    refine ⟨front, ?_⟩
    rw [← List.append_assoc]
    exact congrArg (· ++ [x]) hfront
  refine (eq_of_suffix (rtake_suffix_rtake hsuffix n) (List.suffix_refl _) ?_).symm
  simp only [length_rtake, List.length_append, List.length_singleton]
  omega

end Last

namespace Broadcast

open Channel

variable {c : Channel}

/-! ## One reading -/

/-- What a reading gives, and how it changes the way a channel stands. -/
inductive Reads (a : Account) (receiver : Nat) : Reading → Account → Prop
  /-- The first of the events that are kept for the receiver. -/
  | found {k : Nat} {e : Event} {later : List Event} (hbehind : a.behind[receiver]? = some k)
      (hwaiting : a.held.rtake k = e :: later) :
      Reads a receiver (.event e) { a with behind := a.behind.set receiver later.length }
  /-- There is none, yet or ever. -/
  | finished (hbehind : a.behind[receiver]? = some 0) :
      Reads a receiver (if a.isOpen then .pending else .closed) a
  /-- The handler was interrupted before it asked. -/
  | interrupted : Reads a receiver .interrupted a
  /-- The handler was interrupted when it knew that it has missed events. -/
  | lagged {k : Nat} (hbehind : a.behind[receiver]? = some k) (hmissed : a.held.length < k) :
      Reads a receiver .interrupted { a with behind := a.behind.set receiver a.held.length }

/-- A reading that was not interrupted takes the first of the events that are kept for the receiver,
if there is one. -/
theorem Reads.takes_first {a a' : Account} {receiver k : Nat} {reading : Reading}
    (h : Reads a receiver reading a') (hcertain : reading ≠ .interrupted)
    (hbehind : a.behind[receiver]? = some k) :
    ∃ k', a'.behind[receiver]? = some k' ∧
      ((∃ e, reading = .event e ∧ a.held.rtake k = e :: a'.held.rtake k') ∨
        (reading = (if a.isOpen then .pending else .closed) ∧ a.held.rtake k = [] ∧
          a'.held.rtake k' = [])) := by
  cases h with
  | @found k' e later hbehind' hwaiting =>
    obtain rfl : k' = k := Option.some.inj (hbehind'.symm.trans hbehind)
    have hreceiver : receiver < a.behind.length := (List.getElem?_eq_some_iff.mp hbehind).1
    have hsuffix : later <:+ a.held :=
      (List.suffix_cons e later).trans (hwaiting ▸ List.drop_suffix _ _)
    refine ⟨later.length, List.getElem?_set_self hreceiver, Or.inl ⟨e, rfl, ?_⟩⟩
    rw [hwaiting, rtake_length_of_suffix hsuffix]
  | finished hbehind' =>
    obtain rfl : k = 0 := Option.some.inj (hbehind.symm.trans hbehind')
    have hnone : a.held.rtake 0 = [] := by
      rw [List.rtake, Nat.sub_zero, List.drop_length]
    exact ⟨0, hbehind, Or.inr ⟨rfl, hnone, hnone⟩⟩
  | interrupted => exact absurd rfl hcertain
  | lagged _ _ => exact absurd rfl hcertain

section Read

variable (docs : c.Documented) {s : c.State} {receiver k : Nat}

/-- A receiver that has missed nothing is not interrupted in its first round. -/
theorem read_of_le (hbehind : (docs.account s).behind[receiver]? = some k)
    (hle : k ≤ (docs.account s).held.length) (rounds : Nat) :
    (∃ e later, (docs.account s).held.rtake k = e :: later ∧
      (read receiver (rounds + 1) s).2 = .event e ∧
      docs.account (read receiver (rounds + 1) s).1 =
        { docs.account s with behind := (docs.account s).behind.set receiver later.length }) ∨
    (k = 0 ∧
      (read receiver (rounds + 1) s).2 =
        (if (docs.account s).isOpen then .pending else .closed) ∧
      docs.account (read receiver (rounds + 1) s).1 = docs.account s) := by
  cases k with
  | zero =>
    right
    obtain ⟨haccount, hfound⟩ := docs.finished s receiver hbehind
    refine ⟨rfl, ?_⟩
    rw [read]
    rcases hreceive : c.receive s receiver with ⟨next, found⟩
    rw [hreceive] at haccount hfound
    cases hopen : (docs.account s).isOpen with
    | true =>
      rw [hopen, if_pos rfl] at hfound
      cases hfound
      exact ⟨rfl, haccount⟩
    | false =>
      rw [hopen, if_neg (by decide)] at hfound
      cases hfound
      exact ⟨rfl, haccount⟩
  | succ k =>
    left
    have hlength : ((docs.account s).held.rtake (k + 1)).length = k + 1 := by
      rw [length_rtake, Nat.min_eq_left hle]
    obtain ⟨e, later, hwaiting⟩ := List.exists_cons_of_length_eq_add_one hlength
    obtain ⟨haccount, hfound⟩ := docs.received s receiver (k + 1) e later hbehind hle hwaiting
    refine ⟨e, later, hwaiting, ?_⟩
    rw [read]
    rcases hreceive : c.receive s receiver with ⟨next, found⟩
    rw [hreceive] at haccount hfound
    cases hfound
    exact ⟨rfl, haccount⟩

/-- A receiver that has missed events is told so, and asks again. -/
theorem read_of_lt (hbehind : (docs.account s).behind[receiver]? = some k)
    (hmissed : (docs.account s).held.length < k) (rounds : Nat) :
    ∃ next, read receiver (rounds + 1) s = read receiver rounds next ∧
      docs.account next =
        { docs.account s with
          behind := (docs.account s).behind.set receiver (docs.account s).held.length } := by
  obtain ⟨haccount, hfound⟩ := docs.lagged s receiver k hbehind hmissed
  rcases hreceive : c.receive s receiver with ⟨next, found⟩
  rw [hreceive] at haccount hfound
  cases hfound
  refine ⟨next, ?_, haccount⟩
  rw [read, hreceive]

/-- A reading does what `Reads` says, if something is kept for a receiver that is behind; and it is
not interrupted after two rounds. -/
theorem reads_read (hbehind : (docs.account s).behind[receiver]? = some k)
    (hheld : 0 < k → (docs.account s).held ≠ []) (rounds : Nat) :
    Reads (docs.account s) receiver (read receiver rounds s).2
        (docs.account (read receiver rounds s).1) ∧
      (2 ≤ rounds → (read receiver rounds s).2 ≠ .interrupted) := by
  cases rounds with
  | zero => exact ⟨.interrupted, fun h => absurd h (by omega)⟩
  | succ rounds =>
    by_cases hle : k ≤ (docs.account s).held.length
    · rcases read_of_le docs hbehind hle rounds with
        ⟨e, later, hwaiting, hreading, haccount⟩ | ⟨rfl, hreading, haccount⟩
      · rw [hreading, haccount]
        exact ⟨.found hbehind hwaiting, nofun⟩
      · rw [hreading, haccount]
        refine ⟨.finished hbehind, fun _ => ?_⟩
        split <;> nofun
    · have hmissed := Nat.lt_of_not_le hle
      obtain ⟨next, hread, haccount⟩ := read_of_lt docs hbehind hmissed rounds
      rw [hread]
      cases rounds with
      | zero =>
        refine ⟨?_, fun h => absurd h (by omega)⟩
        show Reads _ receiver .interrupted (docs.account next)
        rw [haccount]
        exact .lagged hbehind hmissed
      | succ rounds =>
        -- all that is kept is left for it, so the second round gives the first of it
        have hlt : receiver < (docs.account s).behind.length :=
          (List.getElem?_eq_some_iff.mp hbehind).1
        have hagain : (docs.account next).behind[receiver]? =
            some (docs.account s).held.length := by
          rw [haccount]
          exact List.getElem?_set_self hlt
        have hsame : (docs.account next).held = (docs.account s).held := by rw [haccount]
        rcases read_of_le docs hagain (by rw [hsame]) rounds with
          ⟨e, later, hwaiting, hreading, hlast⟩ | ⟨hnone, -⟩
        · rw [hreading, hlast, haccount]
          refine ⟨?_, nofun⟩
          have hall : (docs.account s).held.rtake k = e :: later := by
            rw [rtake_of_length_le (by omega), ← hwaiting, hsame,
              rtake_of_length_le (Nat.le_refl _)]
          have hset := Reads.found hbehind hall
          rw [← List.set_set (docs.account s).held.length] at hset
          exact hset
        · exact absurd (List.length_eq_zero_iff.mp hnone) (hheld (by omega))

end Read

/-! ## A handler that follows -/

/-- The number of events up to the last one that was received, by the places of those that were. -/
def passed (places : List Nat) : Nat := (places.getLast?.map (· + 1)).getD 0

/-- How a receiver stands when events were sent to it and it got some of them, those at the given
places. Of all that it was told of, it has missed only what was followed by enough others. -/
structure Follows (a : Account) (receiver : Nat) (sent got : List Event) (k : Nat)
    (places : List Nat) : Prop where
  /-- It was not told of the last `k` events. -/
  behind : a.behind[receiver]? = some k
  /-- These were all sent to it. -/
  late : k ≤ sent.length
  /-- No more events are kept than can be. -/
  bounded : a.held.length ≤ EventBus.capacity
  /-- The last events that were sent are kept. -/
  kept : sent.rtake EventBus.capacity <:+ a.held
  /-- It got the events at the places. -/
  found : got.map some = places.map fun j => sent[j]?
  /-- They were sent in this order. -/
  ascending : places.Pairwise (· < ·)
  /-- It was told of them. -/
  told : ∀ j ∈ places, j + k < sent.length
  /-- It has missed no others than those that enough were sent after. -/
  missed : ∀ j, j + k < sent.length → j ∉ places → j + EventBus.capacity < sent.length
  /-- It was told of no more than it got, unless it has to skip events. -/
  awaited : passed places + k = sent.length ∨ EventBus.capacity ≤ k

section Follows

variable {a : Account} {receiver : Nat} {sent got : List Event} {k : Nat} {places : List Nat}

/-- A receiver that is behind what is kept is behind a full channel. -/
theorem Follows.full (h : Follows a receiver sent got k places) (hmissed : a.held.length < k) :
    a.held.length = EventBus.capacity := by
  have hlate := h.late
  have hbounded := h.bounded
  have hkept := h.kept.length_le
  rw [length_rtake] at hkept
  omega

/-- Something is kept for a receiver that is behind. -/
theorem Follows.held_ne_nil (h : Follows a receiver sent got k places) (hk : 0 < k) :
    a.held ≠ [] := by
  have hlate := h.late
  have hkept := h.kept.length_le
  have hcapacity : 0 < EventBus.capacity := by decide
  rw [length_rtake] at hkept
  rw [← List.length_pos_iff]
  omega

/-- What is kept for a receiver are the last events that were sent to it. -/
theorem Follows.waiting (h : Follows a receiver sent got k places) :
    a.held.rtake k = sent.rtake (min k a.held.length) := by
  have hlate := h.late
  have hbounded := h.bounded
  have hsent : sent.rtake (min k a.held.length) <:+ a.held :=
    (rtake_suffix_of_le (by omega) sent).trans h.kept
  refine eq_of_suffix (List.drop_suffix _ _) hsent ?_
  rw [length_rtake, length_rtake]
  omega

/-- Nothing else matters to a receiver than what is kept and how far it is behind. -/
theorem Follows.congr {a' : Account} (h : Follows a receiver sent got k places)
    (hheld : a'.held = a.held) (hbehind : a'.behind[receiver]? = a.behind[receiver]?) :
    Follows a' receiver sent got k places := by
  refine ⟨?_, h.late, ?_, ?_, h.found, h.ascending, h.told, h.missed, h.awaited⟩
  · rw [hbehind]
    exact h.behind
  · rw [hheld]
    exact h.bounded
  · rw [hheld]
    exact h.kept

/-- A receiver follows from the start. -/
theorem follows_nil (hbehind : a.behind[receiver]? = some 0)
    (hbounded : a.held.length ≤ EventBus.capacity) : Follows a receiver [] [] 0 [] := by
  refine ⟨hbehind, Nat.le_refl _, hbounded, ?_, rfl, .nil, nofun, ?_, Or.inl rfl⟩
  · rw [List.rtake_nil]
    exact List.nil_suffix
  · intro j hj
    exact absurd hj (Nat.not_lt_zero _)

/-- A receiver that follows goes on to do so when an event is sent. -/
theorem Follows.send (h : Follows a receiver sent got k places)
    (hcapacity : a.capacity = EventBus.capacity) (e : Event) :
    Follows { a with
        held := (a.held ++ [e]).drop ((a.held ++ [e]).length - a.capacity)
        behind := a.behind.map (· + 1) }
      receiver (sent ++ [e]) got (k + 1) places := by
  have hlength : (sent ++ [e]).length = sent.length + 1 := by simp
  have hsuffix : sent.rtake EventBus.capacity ++ [e] <:+ a.held ++ [e] := by
    obtain ⟨front, hfront⟩ := h.kept
    refine ⟨front, ?_⟩
    rw [← List.append_assoc, hfront]
  refine ⟨?_, ?_, ?_, ?_, ?_, h.ascending, ?_, ?_, ?_⟩
  · rw [List.getElem?_map, h.behind]
    rfl
  · rw [hlength]
    exact Nat.succ_le_succ h.late
  · show ((a.held ++ [e]).rtake a.capacity).length ≤ _
    rw [length_rtake, hcapacity]
    exact Nat.min_le_left _ _
  · show _ <:+ (a.held ++ [e]).rtake a.capacity
    rw [hcapacity]
    rw [rtake_concat]
    exact rtake_suffix_rtake hsuffix _
  · rw [h.found]
    refine List.map_congr_left fun j hj => ?_
    have htold := h.told j hj
    rw [List.getElem?_append_left (by omega)]
  · intro j hj
    have htold := h.told j hj
    omega
  · intro j hj hnot
    have hmissed := h.missed j (by omega) hnot
    omega
  · have hawaited := h.awaited
    omega

/-- The first event that is kept for a receiver is the one before the others that are left. -/
theorem Follows.first (h : Follows a receiver sent got k places) {e : Event} {later : List Event}
    (hwaiting : a.held.rtake k = e :: later) :
    later.length + 1 = min k a.held.length ∧ later.length < sent.length ∧
      sent[sent.length - (later.length + 1)]? = some e := by
  have hlate := h.late
  have hlast := h.waiting
  have hcount := congrArg List.length hwaiting
  rw [length_rtake, List.length_cons] at hcount
  rw [hwaiting, hcount] at hlast
  refine ⟨hcount.symm, by omega, ?_⟩
  rw [← List.head?_drop]
  show (sent.rtake (later.length + 1)).head? = some e
  rw [← hlast]
  rfl

/-- What a receiver skips to get the next event was followed by enough others. -/
theorem Follows.missed_before (h : Follows a receiver sent got k places) {e : Event}
    {later : List Event} (hwaiting : a.held.rtake k = e :: later) :
    ∀ i < sent.length - (later.length + 1), i ∉ places → i + EventBus.capacity < sent.length := by
  intro i hi hnot
  obtain ⟨hcount, hlt, -⟩ := h.first hwaiting
  by_cases hle : k ≤ a.held.length
  · exact h.missed i (by omega) hnot
  · have hfull := h.full (by omega)
    omega

/-- A receiver that gets the next event goes on to follow. -/
theorem Follows.receive (h : Follows a receiver sent got k places) {e : Event} {later : List Event}
    (hwaiting : a.held.rtake k = e :: later) :
    Follows { a with behind := a.behind.set receiver later.length } receiver sent (got ++ [e])
      later.length (places ++ [sent.length - (later.length + 1)]) := by
  obtain ⟨hcount, hlt, hfirst⟩ := h.first hwaiting
  have hreceiver : receiver < a.behind.length := (List.getElem?_eq_some_iff.mp h.behind).1
  refine ⟨List.getElem?_set_self hreceiver, hlt.le, h.bounded, h.kept, ?_, ?_, ?_, ?_, Or.inl ?_⟩
  · rw [List.map_append, List.map_append, h.found, List.map_singleton, List.map_singleton, hfirst]
  · rw [List.pairwise_append]
    refine ⟨h.ascending, List.pairwise_singleton _ _, ?_⟩
    intro i hi j hj
    have htold := h.told i hi
    rw [List.mem_singleton] at hj
    omega
  · intro i hi
    rcases List.mem_append.mp hi with hold | hnew
    · have htold := h.told i hold
      omega
    · rw [List.mem_singleton] at hnew
      omega
  · intro i hi hnot
    rw [List.mem_append, not_or, List.mem_singleton] at hnot
    exact h.missed_before hwaiting i (by omega) hnot.1
  · rw [passed, List.getLast?_concat]
    show sent.length - (later.length + 1) + 1 + later.length = sent.length
    omega

/-- A receiver that learns that it has missed events goes on to follow. -/
theorem Follows.skip (h : Follows a receiver sent got k places) (hmissed : a.held.length < k) :
    Follows { a with behind := a.behind.set receiver a.held.length } receiver sent got
      a.held.length places := by
  have hlate := h.late
  have hfull := h.full hmissed
  have hreceiver : receiver < a.behind.length := (List.getElem?_eq_some_iff.mp h.behind).1
  refine ⟨List.getElem?_set_self hreceiver, by omega, h.bounded, h.kept, h.found, h.ascending, ?_,
    ?_, Or.inr hfull.ge⟩
  · intro i hi
    have htold := h.told i hi
    omega
  · intro i hi _
    omega

/-- What a reading gives a receiver that follows. -/
theorem Follows.read (h : Follows a receiver sent got k places) {reading : Reading} {a' : Account}
    (hreads : Reads a receiver reading a') :
    (∃ e j k', reading = .event e ∧ j < sent.length ∧
      (∀ i < j, i ∉ places → i + EventBus.capacity < sent.length) ∧
      Follows a' receiver sent (got ++ [e]) k' (places ++ [j])) ∨
    (∃ k', (∀ e, reading ≠ .event e) ∧ Follows a' receiver sent got k' places ∧
      (reading = .closed → a.isOpen = false ∧
        ∀ j < sent.length, sent.length ≤ j + EventBus.capacity → j ∈ places)) := by
  cases hreads with
  | @found k' e later hbehind hwaiting =>
    obtain rfl : k' = k := Option.some.inj (hbehind.symm.trans h.behind)
    obtain ⟨-, hlt, -⟩ := h.first hwaiting
    exact Or.inl ⟨e, sent.length - (later.length + 1), later.length, rfl, by omega,
      h.missed_before hwaiting, h.receive hwaiting⟩
  | finished hbehind =>
    obtain rfl : k = 0 := Option.some.inj (h.behind.symm.trans hbehind)
    refine Or.inr ⟨0, ?_, h, ?_⟩
    · intro e
      split <;> nofun
    · intro hclosed
      cases hopen : a.isOpen with
      | true =>
        rw [hopen] at hclosed
        cases hclosed
      | false =>
        refine ⟨rfl, fun j hj hrecent => ?_⟩
        by_contra hnot
        have hmissed := h.missed j hj hnot
        omega
  | interrupted => exact Or.inr ⟨k, nofun, h, nofun⟩
  | @lagged k' hbehind hmissed =>
    obtain rfl : k' = k := Option.some.inj (hbehind.symm.trans h.behind)
    exact Or.inr ⟨a.held.length, nofun, h.skip hmissed, nofun⟩

/-- What was received are events that were sent, in this order and each at most once. -/
theorem Follows.sublist (h : Follows a receiver sent got k places) : got.Sublist sent := by
  have hascending := h.ascending
  have hfound := h.found
  have hlt : ∀ j ∈ places, j < sent.length := fun j hj =>
    Nat.lt_of_le_of_lt (Nat.le_add_right _ _) (h.told j hj)
  lift places to List (Fin sent.length) using hlt
  have hgot : got = places.map fun j => sent[j] := by
    refine List.map_injective_iff.mpr (Option.some_injective _) ?_
    rw [hfound, List.map_map, List.map_map]
    exact List.map_congr_left fun j _ => List.getElem?_eq_getElem j.isLt
  have hordered : places.Pairwise fun i j => i.val < j.val := List.pairwise_map.mp hascending
  rw [hgot]
  exact List.map_getElem_sublist hordered

/-- All that was received is up to the last place. -/
theorem Follows.passed_le (h : Follows a receiver sent got k places) :
    passed places + k ≤ sent.length := by
  have hlate := h.late
  unfold passed
  cases hlast : places.getLast? with
  | none =>
    show 0 + k ≤ _
    omega
  | some j =>
    have htold := h.told j (List.mem_of_getLast? hlast)
    show j + 1 + k ≤ _
    omega

/-- What is kept for a receiver are the last of the events after the one that it got last. -/
theorem Follows.waiting_eq (h : Follows a receiver sent got k places) :
    a.held.rtake k = (sent.drop (passed places)).rtake EventBus.capacity := by
  have hlate := h.late
  have hbounded := h.bounded
  have hpassed := h.passed_le
  have hawaited := h.awaited
  have hkept := h.kept.length_le
  have hsuffix : (sent.drop (passed places)).rtake EventBus.capacity <:+ sent :=
    (List.drop_suffix _ _).trans (List.drop_suffix _ _)
  rw [h.waiting]
  refine eq_of_suffix (List.drop_suffix _ _) hsuffix ?_
  rw [length_rtake] at hkept
  rw [length_rtake, length_rtake, List.length_drop]
  omega

end Follows

end Broadcast

end ClassHighlight
