import ClassHighlight.Proofs.Session.Document

/-!
# Documents do not interfere

An open document is opened once, changed only by the operations that name it, and closed at most
once. So at the end of a run its buffer is what these operations alone make of a fresh one,
whatever else has happened, and those of them that are performed while another document is active
show nothing to the outside but that it was closed.
-/

namespace ClassHighlight

/-- What is left of a buffer by operations done after others. -/
theorem RawBuffer.run_append (b : RawBuffer) (first later : List Buffer.Operation) :
    b.run (first ++ later) = (b.run first).run later :=
  List.foldl_append

namespace Session

variable {s : Session} {id : DocumentId}

/-! ## What is left at the end -/

/-- An operation of a run opens a document with a buffer, and others follow it. -/
def Opens (s : Session) (ops : List Operation) (id : DocumentId) (fresh : RawBuffer)
    (later : List Operation) : Prop :=
  ∃ earlier op, ops = earlier ++ op :: later ∧ op.fresh? = some fresh ∧
    ((s.run earlier).1.perform op).2.2 = .ok (.opened id)

/-- The document was opened by the last operation, or by one before. -/
theorem opens_append_singleton {ops later : List Operation} {op : Operation} {fresh : RawBuffer} :
    s.Opens (ops ++ [op]) id fresh later ↔
      (later = [] ∧ op.fresh? = some fresh ∧
        ((s.run ops).1.perform op).2.2 = .ok (.opened id)) ∨
      ∃ before, later = before ++ [op] ∧ s.Opens ops id fresh before := by
  constructor
  · rintro ⟨earlier, opening, hops, hfresh, houtcome⟩
    induction later using List.reverseRecOn with
    | nil =>
      obtain ⟨rfl, hlast⟩ := List.append_inj' hops rfl
      cases hlast
      exact Or.inl ⟨rfl, hfresh, houtcome⟩
    | append_singleton before last _ =>
      have hsplit : ops ++ [op] = (earlier ++ opening :: before) ++ [last] := by
        rw [hops, List.append_assoc, List.cons_append]
      obtain ⟨rfl, hlast⟩ := List.append_inj' hsplit rfl
      cases hlast
      exact Or.inr ⟨before, rfl, earlier, opening, rfl, hfresh, houtcome⟩
  · rintro (⟨rfl, hfresh, houtcome⟩ | ⟨before, rfl, earlier, opening, rfl, hfresh, houtcome⟩)
    · exact ⟨ops, op, rfl, hfresh, houtcome⟩
    · refine ⟨earlier, opening, ?_, hfresh, houtcome⟩
      rw [List.append_assoc, List.cons_append]

/-- A document is open after a run if it was opened in it and not closed since. Its buffer is what
the changes of it since then make of a fresh one. -/
theorem run_rawBuffer?_eq_some_iff (config : Config) (ops : List Operation) (id : DocumentId)
    (b : RawBuffer) :
    ((start config).run ops).1.rawBuffer? id = some b ↔
      ∃ fresh later, (start config).Opens ops id fresh later ∧
        (∀ op ∈ later, op.closes id = false) ∧ fresh.run (changesOf id later) = b := by
  induction ops using List.reverseRecOn generalizing b with
  | nil =>
    constructor
    · intro h
      cases h
    · rintro ⟨fresh, later, ⟨earlier, op, hops, -, -⟩, -, -⟩
      simp at hops
  | append_singleton ops op ih =>
    have hnumbered := isNumbered_run config ops
    have hstep := rawBuffer?_perform hnumbered op id
    rw [run_append]
    show (((start config).run ops).1.perform op).1.rawBuffer? id = some b ↔ _
    rw [hstep]
    constructor
    · intro h
      split at h
      · -- the last operation opens the document
        rename_i hid
        have houtcome := outcome_of_fresh? (s := ((start config).run ops).1) h
        rw [← hid] at houtcome
        exact ⟨b, [], opens_append_singleton.2 (Or.inl ⟨rfl, h, houtcome⟩),
          fun _ hin => absurd hin List.not_mem_nil, rfl⟩
      · -- the document was open before
        obtain ⟨hcloses, before, hbefore, rfl⟩ := keptBuffer?_eq_some_iff.1 h
        obtain ⟨fresh, later, hopens, hlater, rfl⟩ := (ih before).1 hbefore
        have hsince : (start config).Opens (ops ++ [op]) id fresh (later ++ [op]) :=
          opens_append_singleton.2 (Or.inr ⟨later, rfl, hopens⟩)
        refine ⟨fresh, later ++ [op], hsince, ?_, ?_⟩
        · intro other hin
          rcases List.mem_append.1 hin with hold | hlast
          · exact hlater other hold
          · rw [List.mem_singleton.1 hlast]
            exact hcloses
        · rw [changesOf_append, RawBuffer.run_append]
    · rintro ⟨fresh, later, hopens, hlater, rfl⟩
      rcases opens_append_singleton.1 hopens with ⟨rfl, hfresh, houtcome⟩ | ⟨before, rfl, hopened⟩
      · rw [outcome_of_fresh? hfresh] at houtcome
        cases houtcome
        rw [if_pos rfl]
        exact hfresh
      · have hin := List.mem_append_right before (List.mem_singleton_self op)
        have hbefore := (ih (fresh.run (changesOf id before))).2
          ⟨fresh, before, hopened, fun other h => hlater other (List.mem_append_left _ h), rfl⟩
        -- a document that was open has not the number that is given next
        have hne : id ≠ ((start config).run ops).1.opened := by
          rintro rfl
          unfold rawBuffer? at hbefore
          rw [document?_opened hnumbered] at hbefore
          cases hbefore
        rw [if_neg hne, keptBuffer?_eq_some_iff, changesOf_append, RawBuffer.run_append]
        exact ⟨hlater op hin, _, hbefore, rfl⟩

/-! ## What is not seen -/

/-- A change of a document that is not the active one is not seen. -/
theorem Succeeds.silent {op : Operation} {step : Session × Effects} {change : Buffer.Operation}
    (h : s.Succeeds op step) (hchange : op.change? = some (id, change))
    (hinactive : s.active? ≠ some id) : step.2 = .none := by
  cases h with
  | edit hopen hedit =>
    cases hchange
    rw [decide_eq_false hinactive]
    rfl
  | moveCursor hopen hmove =>
    cases hchange
    rw [decide_eq_false fun hboth => hinactive hboth.1]
    rfl
  | _ => cases hchange

/-- Of what names a document that is not the active one, only that it is closed is seen. -/
theorem effects_of_inactive {op : Operation} (hinactive : s.active? ≠ some id)
    (hnamed : op.closes id = true ∨ ∃ change, op.change? = some (id, change)) :
    (s.perform op).2.1 =
      if op.closes id = true ∧ (s.document? id).isSome then .event (.closed id) else .none := by
  rcases hnamed with hcloses | ⟨change, hchange⟩
  · obtain rfl : op = .close id := by
      cases op with
      | close named => rw [beq_iff_eq.1 hcloses]
      | _ => cases hcloses
    cases hopen : s.document? id with
    | none =>
      rw [perform_of_error (attempt_of_notOpen rfl hopen), if_neg (by simp)]
    | some d =>
      have hok : s.attempt (.close id) = .ok ((s.remove id).1, (s.remove id).2, .done) := by
        rw [attempt, buffer_of_some hopen]
        rfl
      rw [perform_of_ok hok, if_pos ⟨hcloses, rfl⟩, remove_of_inactive hinactive]
  · rw [(quiet_of_change? hchange).2 id, if_neg (by simp)]
    rcases s.perform_cases op with ⟨e, hfails⟩ | ⟨next, effects, outcome, hgives, hsucceeds⟩
    · rw [hfails]
    · rw [hgives]
      exact hsucceeds.silent hchange hinactive

/-- A document is kept apart from the others in a run. -/
structure KeepsApart (config : Config) (ops : List Operation) (id : DocumentId) : Prop where
  /-- It is open after the run if it was opened in it and not closed since. Its buffer is what the
  changes of it since then make of a fresh one. -/
  buffer : ∀ b, ((start config).run ops).1.rawBuffer? id = some b ↔
    ∃ fresh later, (start config).Opens ops id fresh later ∧
      (∀ op ∈ later, op.closes id = false) ∧ fresh.run (changesOf id later) = b
  /-- If it is not the active one, then of the operations that close or change it only its closing
  is seen. -/
  effects : ((start config).run ops).1.active? ≠ some id →
    ∀ op : Operation, (op.closes id = true ∨ ∃ change, op.change? = some (id, change)) →
      (((start config).run ops).1.perform op).2.1 =
        if op.closes id = true ∧ (((start config).run ops).1.document? id).isSome then
          .event (.closed id)
        else .none

/-- In every run, whatever is done with other documents, every document is kept apart. -/
theorem run_keepsApart (config : Config) (ops : List Operation) (id : DocumentId) :
    KeepsApart config ops id :=
  ⟨run_rawBuffer?_eq_some_iff config ops id, fun hinactive _ => effects_of_inactive hinactive⟩

/-- What is done with another document, and an edit that fails, leave no trace. -/
example : ((start default).run [.openText "ab".toList, .openText "cd".toList,
      .edit 0 1 1 "→".toList, .edit 1 0 2 [], .moveCursor 0 4, .edit 0 9 9 [],
      .close 1]).1.rawBuffer? 0 = some ⟨"a→b".toList, 2, true, none⟩ := rfl

end Session

end ClassHighlight
