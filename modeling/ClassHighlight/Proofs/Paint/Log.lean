import Mathlib.Data.List.Basic
import ClassHighlight.Proofs.Paint.Overlay

/-!
# The log of a host

A host can write down what it is asked for. Its log alone tells which decorations were created,
which of them are alive and what each of them paints. A terminal that refuses none of the calls has
just the decorations that are alive by the log (`Terminal.Records`), and the log is then sound: no
call names a decoration that is not alive, and so none is disposed twice.
-/

namespace ClassHighlight

namespace PaintCall

/-- The handle of the decoration that a call creates. -/
def created? : PaintCall → Option Nat
  | .create handle _ _ => some handle
  | .set _ _ => none
  | .dispose _ => none

/-- The handle of the decoration that a call takes to be alive. -/
def used? : PaintCall → Option Nat
  | .create _ _ _ => none
  | .set handle _ => some handle
  | .dispose handle => some handle

/-- What a call makes the decoration with a given handle paint. -/
def painted? (handle : Nat) : PaintCall → Option (List Span)
  | .create other _ _ => if other = handle then some [] else none
  | .set other spans => if other = handle then some spans else none
  | .dispose _ => none

end PaintCall

/-! ## Reading a log -/

/-- Paint calls in the order in which a host was asked for them. -/
abbrev PaintLog := List PaintCall

namespace PaintLog

/-- The handles of all decorations that were ever created. -/
def created (log : PaintLog) : List Nat := log.filterMap PaintCall.created?

/-- The handles of the decorations that were created and not disposed. -/
def alive (log : PaintLog) : List Nat :=
  log.created.filter fun handle => .dispose handle ∉ log

/-- What the decoration with a given handle was last asked to paint. -/
def painted? (log : PaintLog) (handle : Nat) : Option (List Span) :=
  (log.filterMap (PaintCall.painted? handle)).getLast?

/-- Every decoration has a handle of its own, no call names one that is not alive then, and none is
disposed twice. -/
structure IsSound (log : PaintLog) : Prop where
  /-- Handles are numbered from zero in the order of their creation. -/
  numbered : log.created = List.range log.created.length
  /-- A decoration that gets spans or is disposed was created and not disposed before. -/
  usesAlive : ∀ before call after handle, log = before ++ call :: after →
    call.used? = some handle → handle ∈ alive before
  /-- A decoration is disposed at most once. -/
  disposedOnce : ∀ handle, log.count (.dispose handle) ≤ 1

/-- At every point of a log there is at most one live decoration for each category. -/
def HasFewAlive (log : PaintLog) : Prop :=
  ∀ before after, log = before ++ after → (alive before).length ≤ Category.all.length

section Append

variable (log calls : PaintLog)

theorem created_append : created (log ++ calls) = log.created ++ calls.created :=
  List.filterMap_append

theorem painted?_concat (call : PaintCall) (handle : Nat) :
    painted? (log ++ [call]) handle = (call.painted? handle).or (log.painted? handle) := by
  unfold painted?
  rw [List.filterMap_append, List.getLast?_append]
  congr 1
  rw [List.filterMap_cons]
  cases call.painted? handle <;> rfl

theorem count_dispose_concat (call : PaintCall) (handle : Nat) :
    (log ++ [call]).count (.dispose handle) =
      log.count (.dispose handle) + if call = .dispose handle then 1 else 0 := by
  rw [List.count_append, List.count_singleton]
  simp only [beq_iff_eq]

/-- Only creations can bring more decorations to life. -/
theorem length_alive_append_le :
    (alive (log ++ calls)).length ≤ log.alive.length + calls.created.length := by
  unfold alive
  rw [created_append, List.filter_append, List.length_append]
  refine Nat.add_le_add ?_ (List.length_filter_le _ _)
  -- what is not disposed in the longer log is not disposed in the shorter one
  refine (List.monotone_filter_right _ ?_).length_le
  intro handle hkept
  have hnot := of_decide_eq_true hkept
  exact decide_eq_true fun hmem => hnot (List.mem_append_left _ hmem)

variable {log calls}

/-- Calls leave few decorations alive if they do so even without their disposals. -/
theorem HasFewAlive.append (h : log.HasFewAlive)
    (hfew : log.alive.length + calls.created.length ≤ Category.all.length) :
    HasFewAlive (log ++ calls) := by
  intro before after heq
  -- the point is among the calls, or in the log before them
  rcases List.append_eq_append_iff.1 heq with ⟨first, rfl, rfl⟩ | ⟨rest, rfl, -⟩
  · have hle := length_alive_append_le log first
    rw [created_append, List.length_append] at hfew
    omega
  · exact h before rest rfl

end Append

end PaintLog

/-! ## Logs and terminals -/

namespace Terminal

theorem isAlive_iff {t : Terminal} {handle : Nat} :
    t.isAlive handle = true ↔ ∃ d, t.slots[handle]? = some (some d) := by
  unfold isAlive
  rw [Option.isSome_iff_exists]
  constructor
  · rintro ⟨d, hd⟩
    rcases Option.bind_eq_some_iff.1 hd with ⟨slot, hslot, hsame⟩
    exact ⟨d, by rw [hslot, show slot = some d from hsame]⟩
  · rintro ⟨d, hd⟩
    exact ⟨d, by rw [hd]; rfl⟩

/-- What the log of a terminal's calls tells about its decorations. -/
structure Records (log : PaintLog) (t : Terminal) : Prop where
  /-- The decorations were created in their order. -/
  numbered : log.created = List.range t.slots.length
  /-- Those that left their places empty were disposed once, and no others. -/
  disposed : ∀ handle,
    log.count (.dispose handle) = if t.slots[handle]? = some none then 1 else 0
  /-- The others were created as they are and were last asked to paint what they paint. -/
  kept : ∀ handle d, t.slots[handle]? = some (some d) →
    .create handle d.category d.style ∈ log ∧ log.painted? handle = some d.spans

theorem records_empty : Records [] empty := by
  refine ⟨rfl, ?_, ?_⟩
  · intro handle
    rfl
  · intro handle d hd
    cases hd

section Step

variable (t : Terminal)

theorem getElem?_create (category : Category) (style : Style) (handle : Nat) :
    (t.create category style).1.slots[handle]? =
      if handle = t.slots.length then some (some ⟨category, style, []⟩)
      else t.slots[handle]? := by
  unfold create
  rw [List.getElem?_append, List.getElem?_singleton]
  grind

theorem getElem?_set (handle : Nat) (spans : List Span) (other : Nat) :
    (t.set handle spans).slots[other]? = t.slots[other]?.map fun slot =>
      if handle = other then slot.map fun d => { d with spans } else slot := by
  unfold set
  exact List.getElem?_modify _ _ _ _

theorem getElem?_dispose {handle : Nat} (halive : t.isAlive handle = true) (other : Nat) :
    (t.dispose handle).slots[other]? =
      if handle = other then some none else t.slots[other]? := by
  unfold dispose
  rcases isAlive_iff.1 halive with ⟨d, hd⟩
  rw [List.getElem?_set]
  have hlt := (List.getElem?_eq_some_iff.1 hd).1
  grind

variable {log : PaintLog} {t} {t' : Terminal}

theorem Records.create (h : Records log t) (category : Category) (style : Style) :
    Records (log ++ [.create t.slots.length category style]) (t.create category style).1 := by
  refine ⟨?_, ?_, ?_⟩
  · rw [PaintLog.created_append, h.numbered]
    unfold Terminal.create
    rw [List.length_append, List.length_singleton, List.range_succ]
    rfl
  · intro handle
    rw [PaintLog.count_dispose_concat, h.disposed, getElem?_create]
    by_cases hnew : handle = t.slots.length
    · simp [hnew]
    · simp [hnew]
  · intro handle d hd
    rw [getElem?_create] at hd
    rw [PaintLog.painted?_concat]
    by_cases hnew : handle = t.slots.length
    · rw [if_pos hnew] at hd
      cases hd
      simp [PaintCall.painted?, hnew]
    · rw [if_neg hnew] at hd
      rcases h.kept handle d hd with ⟨hcreated, hpainted⟩
      simp [PaintCall.painted?, Ne.symm hnew, hcreated, hpainted]

theorem Records.set (h : Records log t) (handle : Nat) (spans : List Span) :
    Records (log ++ [.set handle spans]) (t.set handle spans) := by
  refine ⟨?_, ?_, ?_⟩
  · rw [PaintLog.created_append, h.numbered]
    unfold Terminal.set
    rw [List.length_modify]
    exact List.append_nil _
  · intro other
    rw [PaintLog.count_dispose_concat, h.disposed, getElem?_set]
    -- a disposed decoration stays so, and no other becomes so
    have hiff : (t.slots[other]?.map fun slot =>
        if handle = other then slot.map fun d => { d with spans } else slot) = some none ↔
          t.slots[other]? = some none := by
      rw [Option.map_eq_some_iff]
      constructor
      · rintro ⟨slot, hslot, hsame⟩
        split at hsame
        · rw [hslot, Option.map_eq_none_iff.1 hsame]
        · rw [hslot, hsame]
      · intro hslot
        exact ⟨none, hslot, by split <;> rfl⟩
    simp only [hiff]
    rfl
  · intro other d hd
    rw [getElem?_set] at hd
    rw [PaintLog.painted?_concat]
    rcases Option.map_eq_some_iff.1 hd with ⟨slot, hslot, hsame⟩
    by_cases hother : handle = other
    · rw [if_pos hother] at hsame
      rcases Option.map_eq_some_iff.1 hsame with ⟨before, rfl, rfl⟩
      have hcreated := (h.kept other before hslot).1
      simp [PaintCall.painted?, hother, hcreated]
    · rw [if_neg hother] at hsame
      rw [hsame] at hslot
      rcases h.kept other d hslot with ⟨hcreated, hpainted⟩
      simp [PaintCall.painted?, hother, hcreated, hpainted]

theorem Records.dispose (h : Records log t) {handle : Nat} (halive : t.isAlive handle = true) :
    Records (log ++ [.dispose handle]) (t.dispose handle) := by
  refine ⟨?_, ?_, ?_⟩
  · rw [PaintLog.created_append, h.numbered]
    unfold Terminal.dispose
    rw [List.length_set]
    exact List.append_nil _
  · intro other
    rw [PaintLog.count_dispose_concat, h.disposed, getElem?_dispose t halive]
    by_cases hother : handle = other
    · -- it was alive, and so never disposed before
      rcases isAlive_iff.1 halive with ⟨d, hd⟩
      rw [← hother, hd]
      simp
    · simp [hother]
  · intro other d hd
    rw [getElem?_dispose t halive] at hd
    rw [PaintLog.painted?_concat]
    by_cases hother : handle = other
    · rw [if_pos hother] at hd
      cases hd
    · rw [if_neg hother] at hd
      rcases h.kept other d hd with ⟨hcreated, hpainted⟩
      exact ⟨List.mem_append_left _ hcreated, hpainted⟩

/-- A call that is not refused keeps log and terminal together. -/
theorem Records.perform? (h : Records log t) {call : PaintCall}
    (hcall : t.perform? call = some t') : Records (log ++ [call]) t' := by
  cases call with
  | create handle category style =>
    rcases Option.ite_none_right_eq_some.1 hcall with ⟨rfl, heq⟩
    cases heq
    exact h.create category style
  | set handle spans =>
    rcases Option.ite_none_right_eq_some.1 hcall with ⟨-, heq⟩
    cases heq
    exact h.set handle spans
  | dispose handle =>
    rcases Option.ite_none_right_eq_some.1 hcall with ⟨halive, heq⟩
    cases heq
    exact h.dispose halive

/-- Calls that are not refused keep log and terminal together. -/
theorem Records.performAll? (h : Records log t) {calls : PaintLog}
    (hcalls : t.performAll? calls = some t') : Records (log ++ calls) t' := by
  induction calls generalizing log t with
  | nil =>
    cases hcalls
    rw [List.append_nil]
    exact h
  | cons call rest ih =>
    rcases Option.bind_eq_some_iff.1 hcalls with ⟨next, hcall, hrest⟩
    have hnext := ih (h.perform? hcall) hrest
    rw [List.append_assoc] at hnext
    exact hnext

end Step

/-! ## What a log without refused calls is like -/

section Accepted

variable {log : PaintLog} {t : Terminal}

/-- The decorations that are alive by the log are those that are alive on the terminal. -/
theorem Records.alive_eq (h : Records log t) :
    log.alive = (List.range t.slots.length).filter t.isAlive := by
  unfold PaintLog.alive
  rw [h.numbered]
  apply List.filter_congr
  intro handle hlt
  obtain ⟨slot, hslot⟩ : ∃ slot, t.slots[handle]? = some slot :=
    ⟨_, List.getElem?_eq_getElem (List.mem_range.1 hlt)⟩
  rw [Bool.eq_iff_iff, decide_eq_true_iff, ← List.count_eq_zero, h.disposed, isAlive_iff, hslot]
  cases slot <;> simp

theorem Records.mem_alive_iff (h : Records log t) {handle : Nat} :
    handle ∈ log.alive ↔ t.isAlive handle = true := by
  rw [h.alive_eq, List.mem_filter, List.mem_range]
  constructor
  · intro hmem
    exact hmem.2
  · intro halive
    rcases isAlive_iff.1 halive with ⟨d, hd⟩
    exact ⟨(List.getElem?_eq_some_iff.1 hd).1, halive⟩

theorem isAlive_of_used? {t' : Terminal} {call : PaintCall} {handle : Nat}
    (hcall : t.perform? call = some t') (hused : call.used? = some handle) :
    t.isAlive handle = true := by
  cases call with
  | create _ _ _ => cases hused
  | set other spans =>
    cases hused
    exact (Option.ite_none_right_eq_some.1 hcall).1
  | dispose other =>
    cases hused
    exact (Option.ite_none_right_eq_some.1 hcall).1

/-- A log of which a terminal refuses no call is sound. -/
theorem isSound_of_performAll? (h : empty.performAll? log = some t) : log.IsSound := by
  have hrecords : Records log t := records_empty.performAll? h
  refine ⟨?_, ?_, ?_⟩
  · rw [hrecords.numbered, List.length_range]
  · intro before call after handle heq hused
    -- the call is performed on the terminal that the calls before it lead to
    rw [heq, performAll?_append] at h
    rcases Option.bind_eq_some_iff.1 h with ⟨next, hbefore, hrest⟩
    rcases Option.bind_eq_some_iff.1 hrest with ⟨later, hcall, -⟩
    have hnext : Records before next := records_empty.performAll? hbefore
    exact hnext.mem_alive_iff.2 (isAlive_of_used? hcall hused)
  · intro handle
    rw [hrecords.disposed]
    split <;> decide

end Accepted

end Terminal

end ClassHighlight
