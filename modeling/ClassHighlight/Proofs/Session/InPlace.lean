import Mathlib.Data.List.Nodup
import ClassHighlight.Proofs.Session.Document
import ClassHighlight.Session.InPlace

/-!
# What fails changes nothing

Done assignment by assignment, an operation on a session gives what it gives on whole sessions: what
is left of the session, what is shown, and the outcome. So an operation that fails has assigned
nothing and shown nothing. The same is true of operations on buffers that are changed in place.
-/

namespace ClassHighlight

namespace Effects

variable (a b c : Effects)

theorem append_assoc : a ++ b ++ c = a ++ (b ++ c) := by
  show Effects.mk _ _ = Effects.mk _ _
  rw [Effects.mk.injEq]
  exact ⟨List.append_assoc _ _ _, List.append_assoc _ _ _⟩

@[simp] theorem append_none : a ++ none = a := by
  show Effects.mk _ _ = a
  simp [none]

@[simp] theorem none_append : none ++ a = a := rfl

/-- Calls and then an event. -/
theorem append_event (calls : List PaintCall) (e : Event) :
    (⟨calls, []⟩ : Effects) ++ .event e = ⟨calls, [e]⟩ := by
  show Effects.mk (calls ++ []) [e] = _
  rw [List.append_nil]

end Effects

namespace Session

/-- An operation that has come to another session, and shown more effects on its way. -/
def Progress.after (p : Progress) (step : Session × Effects) : Progress :=
  ⟨step.1, p.effects ++ step.2⟩

/-- Effects that come first are shown first. -/
theorem Progress.after_after (p : Progress) (s : Session) (first : Effects)
    (step : Session × Effects) :
    (p.after (s, first)).after step = p.after (step.1, first ++ step.2) := by
  unfold after
  rw [Effects.append_assoc]

theorem Progress.after_none (p : Progress) : p.after (p.session, .none) = p := by
  unfold after
  rw [Effects.append_none]

@[simp] theorem Progress.session_after (p : Progress) (step : Session × Effects) :
    (p.after step).session = step.1 := rfl

namespace InPlace

open ClassHighlight.InPlace

variable {p : Progress}

/-! ## Assignments and effects -/

@[simp] theorem on_assign (f : Session → Session) (p : Progress) :
    (assign f).on p = (.ok (), p.after (f p.session, .none)) := by
  show (_, Progress.mk _ _) = (_, Progress.mk _ _)
  rw [Effects.append_none]

@[simp] theorem on_request (calls : List PaintCall) (p : Progress) :
    (request calls).on p = (.ok (), p.after (p.session, ⟨calls, []⟩)) := rfl

@[simp] theorem on_emit (e : Event) (p : Progress) :
    (emit e).on p = (.ok (), p.after (p.session, .event e)) := rfl

theorem on_find_of_some {id : DocumentId} {d : Document} (h : p.session.document? id = some d) :
    (find id).on p = (.ok d, p) := by
  rw [find, on_bind, on_get]
  simp only [h, on_pure]

theorem on_find_of_none {id : DocumentId} (h : p.session.document? id = none) :
    (find id).on p = (.error (.noDocument id), p) := by
  rw [find, on_bind, on_get]
  simp only [h, on_throw]

/-! ## Painting -/

theorem on_clear (p : Progress) : clear.on p = (.ok (), p.after p.session.clear) := by
  simp only [clear, on_bind, on_get, on_assign, on_request, on_ite, on_emit, on_pure,
    Progress.after_after, Progress.session_after, Effects.none_append, Effects.append_event]
  unfold Session.clear
  cases p.session.overlay.isLive <;> rfl

theorem on_repaint (p : Progress) :
    repaint.on p = (.ok (p.session.highlights?.map Prod.snd), p.after p.session.repaint) := by
  unfold repaint Session.repaint
  cases hwanted : p.session.highlights? with
  | some wanted =>
    rcases wanted with ⟨id, h⟩
    simp only [on_bind, on_get, hwanted, on_assign, on_request, on_emit, on_pure,
      Progress.after_after, Progress.session_after, Effects.none_append, Effects.append_event]
    rfl
  | none =>
    simp only [on_bind, on_get, hwanted, on_clear, on_pure]
    rfl

theorem on_repaintIf (needed : Bool) (p : Progress) :
    (repaintIf needed).on p = (.ok (), p.after (p.session.repaintIf needed)) := by
  cases needed with
  | true => exact on_bind_of_ok (on_repaint p) _
  | false =>
    show (_, p) = (_, Progress.mk _ _)
    rw [Session.repaintIf, if_neg (by decide), Effects.append_none]

/-! ## Documents -/

theorem on_makeActive (id : DocumentId) (p : Progress) :
    (makeActive id).on p = (.ok (), p.after (p.session.makeActive id)) := by
  simp only [makeActive, on_bind, on_assign, on_emit, on_repaint, on_pure, Progress.after_after,
    Progress.session_after, Effects.none_append]
  rfl

theorem on_add (d : Document) (p : Progress) :
    (add d).on p = (.ok p.session.opened, p.after (p.session.add d)) := by
  simp only [add, on_bind, on_get, on_assign, on_emit, on_makeActive, on_pure,
    Progress.after_after, Progress.session_after, Effects.none_append]
  rfl

theorem on_close {id : DocumentId} {d : Document} (h : p.session.document? id = some d) :
    (close id).on p = (.ok (), p.after (p.session.remove id)) := by
  rw [close, on_bind_of_ok (on_find_of_some h)]
  by_cases hactive : p.session.active? = some id
  · rw [remove_of_active hactive]
    simp only [on_bind, on_get, on_assign, on_emit, on_clear, hactive, if_true,
      Progress.after_after, Progress.session_after, Effects.none_append]
    rfl
  · rw [remove_of_inactive hactive]
    simp only [on_bind, on_get, on_assign, on_emit, on_pure, hactive, if_false,
      Progress.after_after, Progress.session_after, Effects.none_append]
    rfl

/-- To put back the buffer that a document has changes nothing. -/
theorem setBuffer_self {s : Session} {id : DocumentId} {d : Document}
    (hs : IsNumbered s.documents s.opened) (hopen : s.document? id = some d) :
    s.setBuffer id d.buffer = s := by
  have hin : (id, d) ∈ s.documents := by
    obtain ⟨before, later, hsplit, -⟩ := List.lookup_eq_some_iff.1 hopen
    rw [hsplit]
    exact List.mem_append_right before List.mem_cons_self
  have hdocuments : (s.setBuffer id d.buffer).documents = s.documents := by
    refine (List.map_congr_left ?_).trans (List.map_id _)
    intro entry hentry
    show (if entry.1 = id then _ else entry) = entry
    split
    · rename_i hid
      -- no other document has the number
      rw [List.inj_on_of_nodup_map hs.distinct hentry hin hid]
    · rfl
  show { s with documents := (s.setBuffer id d.buffer).documents } = s
  rw [hdocuments]

/-- A change of a buffer that succeeds puts the new buffer in its place. -/
theorem on_changeBuffer_of_ok {α : Type} {id : DocumentId} {change : RawBuffer.Change α}
    {d : Document} {b : Buffer} {a : α} (hopen : p.session.document? id = some d)
    (h : change.on d.buffer.raw = (.ok a, b.raw)) :
    (changeBuffer id change).on p = (.ok a, p.after (p.session.setBuffer id b, .none)) := by
  rw [changeBuffer, on_bind_of_ok (on_find_of_some hopen)]
  simp only [h, on_bind, on_assign, on_pure, Buffer.confine_raw]

/-- A change that fails on a buffer and leaves it as it was does so on the session. -/
theorem on_changeBuffer_of_error {α : Type} {id : DocumentId} {change : RawBuffer.Change α}
    {d : Document} {e : BufferError} (hs : IsNumbered p.session.documents p.session.opened)
    (hopen : p.session.document? id = some d)
    (h : change.on d.buffer.raw = (.error e, d.buffer.raw)) :
    (changeBuffer id change).on p = (.error (.buffer e), p) := by
  rw [changeBuffer, on_bind_of_ok (on_find_of_some hopen)]
  simp only [h, on_bind, on_assign, on_throw, Buffer.confine_raw, setBuffer_self hs hopen,
    Progress.after_none]

theorem on_edit_of_ok {id : DocumentId} {start stop : Nat} {t removed : Text} {d : Document}
    {edited : Buffer} (hopen : p.session.document? id = some d)
    (hedit : d.buffer.replace start stop t = .ok (edited, removed)) :
    (edit id start stop t).on p =
      (.ok (),
        p.after ((p.session.setBuffer id edited).repaintIf (p.session.active? = some id))) := by
  have hchange := d.buffer.on_replace_raw start stop t
  rw [hedit] at hchange
  rw [edit, on_bind_of_ok (on_changeBuffer_of_ok hopen hchange)]
  simp only [on_bind, on_get, on_repaintIf, Progress.after_after, Progress.session_after,
    Effects.none_append]
  rfl

theorem on_moveCursor_of_ok {id : DocumentId} {offset : Nat} {d : Document} {moved : Buffer}
    (hopen : p.session.document? id = some d) (hmove : d.buffer.setCursor offset = .ok moved) :
    (moveCursor id offset).on p =
      (.ok (), p.after ((p.session.setBuffer id moved).repaintIf
        (p.session.active? = some id ∧ p.session.config.mode = .cursor))) := by
  have hchange := d.buffer.on_setCursor_raw offset
  rw [hmove] at hchange
  rw [moveCursor, on_bind_of_ok (on_changeBuffer_of_ok hopen hchange)]
  simp only [on_bind, on_get, on_repaintIf, Progress.after_after, Progress.session_after,
    Effects.none_append]
  rfl

/-! ## Configuration -/

theorem on_configure (config : Config) (p : Progress) :
    (configure config).on p = (.ok (), p.after (p.session.configure config)) := by
  unfold configure Session.configure
  by_cases h : config.status = p.session.config.status
  · simp only [on_bind, on_get, on_assign, on_repaint, on_pure, h, ne_eq, not_true,
      if_false, if_true, Progress.after_after, Progress.session_after, Effects.none_append]
  · simp only [on_bind, on_get, on_assign, on_emit, on_repaint, on_pure, h, ne_eq, not_false_iff,
      if_false, if_true, Progress.after_after, Progress.session_after, Effects.none_append]

/-! ## Operations -/

/-- An operation that is refused fails before it has assigned or shown anything. -/
theorem on_act_of_refuses {op : Operation} {e : SessionError}
    (hs : IsNumbered p.session.documents p.session.opened) (h : p.session.Refuses op e) :
    (act op).on p = (.error e, p) := by
  cases h with
  | unreadable h =>
    simp only [act, ofFile_eq_error_iff.2 ⟨h, rfl⟩, on_throw]
  | notOpen hnamed hclosed =>
    have hfind := on_find_of_none hclosed
    cases op with
    | activate id =>
      cases hnamed
      exact on_bind_of_error hfind _
    | close id =>
      cases hnamed
      exact on_bind_of_error (on_bind_of_error hfind _) _
    | edit id start stop t =>
      cases hnamed
      exact on_bind_of_error (on_bind_of_error (on_bind_of_error hfind _) _) _
    | moveCursor id offset =>
      cases hnamed
      exact on_bind_of_error (on_bind_of_error (on_bind_of_error hfind _) _) _
    | _ => cases hnamed
  | buffer hchange hopen h =>
    have hperform := RawBuffer.on_perform_eq_error_iff.2 ⟨h, rfl⟩
    cases op with
    | edit id start stop t =>
      cases hchange
      have hfails := on_changeBuffer_of_error hs hopen hperform
      exact on_bind_of_error (on_bind_of_error hfails _) _
    | moveCursor id offset =>
      cases hchange
      have hrefused : (RawBuffer.setCursor offset).on _ = (.error _, _) :=
        RawBuffer.on_setCursor_of_refuses h
      have hfails := on_changeBuffer_of_error hs hopen hrefused
      exact on_bind_of_error (on_bind_of_error hfails _) _
    | _ => cases hchange

/-- What succeeds on the whole session succeeds in place, with the same outcome. -/
theorem on_act_of_succeeds {op : Operation} {step : Session × Effects}
    (h : p.session.Succeeds op step) : ∃ outcome,
      p.session.attempt op = .ok (step.1, step.2, outcome) ∧
        (act op).on p = (.ok outcome, p.after step) := by
  cases h with
  | openText t => exact ⟨_, rfl, on_bind_of_ok (on_add _ p) _⟩
  | openFile hread =>
    refine ⟨_, by rw [attempt, hread], ?_⟩
    simp only [act, hread]
    exact on_bind_of_ok (on_add _ p) _
  | activate hopen =>
    refine ⟨.done, by rw [attempt, buffer_of_some hopen]; rfl, ?_⟩
    rw [act, on_bind_of_ok (on_find_of_some hopen)]
    exact on_bind_of_ok (on_makeActive _ p) _
  | close hopen =>
    refine ⟨.done, by rw [attempt, buffer_of_some hopen]; rfl, ?_⟩
    exact on_bind_of_ok (on_close hopen) _
  | edit hopen hedit =>
    refine ⟨.done, ?_, on_bind_of_ok (on_edit_of_ok hopen hedit) _⟩
    simp only [attempt, buffer_of_some hopen, bind, Except.bind, hedit]
    rfl
  | moveCursor hopen hmove =>
    refine ⟨.done, ?_, on_bind_of_ok (on_moveCursor_of_ok hopen hmove) _⟩
    simp only [attempt, buffer_of_some hopen, bind, Except.bind, hmove]
    rfl
  | configure config => exact ⟨_, rfl, on_bind_of_ok (on_configure _ p) _⟩
  | toggle => exact ⟨_, rfl, on_bind_of_ok (on_configure _ p) _⟩
  | setMode mode => exact ⟨_, rfl, on_bind_of_ok (on_configure _ p) _⟩
  | setPreset preset => exact ⟨_, rfl, on_bind_of_ok (on_configure _ p) _⟩
  | rescan => exact ⟨_, rfl, on_bind_of_ok (on_repaint p) _⟩
  | shutdown => exact ⟨_, rfl, on_bind_of_ok (on_clear p) _⟩

end InPlace

variable {s : Session}

/-- Done in place, an operation gives what it gives on the whole session. -/
theorem performInPlace_eq (hs : IsNumbered s.documents s.opened) (op : Operation) :
    s.performInPlace op = s.perform op := by
  unfold performInPlace
  cases hattempt : s.attempt op with
  | error e =>
    rw [perform_of_error hattempt,
      InPlace.on_act_of_refuses hs (attempt_eq_error_iff.1 hattempt)]
  | ok result =>
    rcases result with ⟨next, effects, outcome⟩
    obtain ⟨outcome', hok, hon⟩ :=
      InPlace.on_act_of_succeeds (p := ⟨s, .none⟩) (succeeds_of_attempt hattempt)
    obtain rfl : outcome = outcome' := by
      rw [hattempt] at hok
      cases hok
      rfl
    rw [perform_of_ok hattempt, hon]
    rfl

/-- So does a run. -/
theorem runInPlace_eq (hs : IsNumbered s.documents s.opened) (ops : List Operation) :
    s.runInPlace ops = s.run ops := by
  induction ops generalizing s with
  | nil => rfl
  | cons op rest ih =>
    have hnext := (s.leaves_perform op).isNumbered hs
    rw [runInPlace, run, performInPlace_eq hs]
    rcases hperform : s.perform op with ⟨next, effects, outcome⟩
    rw [hperform] at hnext
    simp only [ih hnext]

/-! ## Failures -/

/-- An operation on a whole session fails if it is refused. -/
theorem perform_eq_error_iff {op : Operation} {e : SessionError} :
    (s.perform op).2.2 = .error e ↔ s.Refuses op e := by
  rw [← attempt_eq_error_iff]
  constructor
  · intro h
    cases hattempt : s.attempt op with
    | error e' =>
      rw [perform_of_error hattempt] at h
      cases h
      rfl
    | ok result =>
      rw [perform_of_ok hattempt] at h
      cases h
  · intro h
    rw [perform_of_error h]

/-- Whatever fails on a session leaves it as it was. -/
structure FailsCleanly (s : Session) : Prop where
  /-- Done in place, an operation gives what it gives on the whole session. -/
  whole : ∀ op, s.performInPlace op = s.perform op
  /-- It fails if it is refused. -/
  refused : ∀ op e, (s.performInPlace op).2.2 = .error e ↔ s.Refuses op e
  /-- Then it has assigned nothing, asked the host for nothing and told of nothing. -/
  unchanged : ∀ op e, (s.performInPlace op).2.2 = .error e →
    s.performInPlace op = (s, .none, .error e)

theorem failsCleanly_of_isNumbered (hs : IsNumbered s.documents s.opened) : s.FailsCleanly := by
  constructor
  · intro op
    exact performInPlace_eq hs op
  · intro op e
    rw [performInPlace_eq hs]
    exact perform_eq_error_iff
  · intro op e h
    rw [performInPlace_eq hs] at h ⊢
    exact perform_of_error (attempt_eq_error_iff.2 (perform_eq_error_iff.1 h))

/-- In every state that a session comes to, what fails leaves the session as it was. What fails on
a buffer leaves the buffer as it was, and the insertion that completes a replacement does not
fail. -/
theorem failures_change_nothing (config : Config) (earlier : List Operation) :
    ((start config).runInPlace earlier).1.FailsCleanly ∧
      (∀ (b left : RawBuffer) op e,
        (RawBuffer.perform op).on b = (.error e, left) ↔ b.Refuses op e ∧ left = b) ∧
      ∀ (b left : RawBuffer) start stop t removed,
        (RawBuffer.delete start stop).on b = (.ok removed, left) →
          ∃ after, (RawBuffer.insert start t).on left = (.ok (), after) := by
  have hstart : IsNumbered (start config).documents (start config).opened := isNumbered_nil 0
  refine ⟨?_, ?_, ?_⟩
  · rw [runInPlace_eq hstart]
    exact failsCleanly_of_isNumbered (isNumbered_run config earlier)
  · intro b left op e
    exact RawBuffer.on_perform_eq_error_iff
  · intro b left start stop t removed h
    exact ⟨_, RawBuffer.on_insert_of_delete h t⟩

/-- A range that ends before it starts is refused. -/
example : ((start default).runInPlace [.openText "ab".toList]).1.performInPlace
      (.edit 0 2 1 "c".toList) =
    (((start default).runInPlace [.openText "ab".toList]).1, .none,
      .error (.buffer (.charIndex 2))) := rfl

end Session

end ClassHighlight
