import ClassHighlight.Proofs.Paint.Overlay
import ClassHighlight.Session.Basic

/-!
# The painting of a session stays current

Operations on a session repaint when they change what is to be painted, and leave the painting
alone when they do not: an edit of another document, a cursor that moves in full mode. So what is
painted is at all times what the session asks for. Only after a shutdown it may be nothing until
the next operation that repaints.
-/

namespace ClassHighlight

namespace Session

/-! ## Documents -/

section Documents

variable {s : Session} {id : DocumentId}

/-- No open document has the number that is given next. -/
theorem lookup_append_opened {docs : List (DocumentId × Document)} {n : DocumentId}
    (h : ∀ entry ∈ docs, entry.1 < n) (d : Document) : (docs ++ [(n, d)]).lookup n = some d := by
  have hnone : docs.lookup n = none := by
    rw [List.lookup_eq_none_iff]
    intro entry hentry
    have := h entry hentry
    exact bne_iff_ne.2 (Nat.ne_of_gt this)
  rw [List.lookup_append, hnone]
  simp

theorem document?_filter {other : DocumentId} (hne : other ≠ id)
    (docs : List (DocumentId × Document)) :
    (docs.filter fun entry => entry.1 != id).lookup other = docs.lookup other := by
  induction docs with
  | nil => rfl
  | cons entry rest ih =>
    rw [List.filter_cons, List.lookup_cons]
    by_cases hid : entry.1 = id
    · have hother : (other == entry.1) = false := by
        rw [beq_eq_false_iff_ne, hid]
        exact hne
      rw [hother, if_neg (by simp [hid])]
      exact ih
    · rw [if_pos (by simpa using hid), List.lookup_cons, ih]

/-- Replacing the buffer of a document changes no other document. -/
theorem document?_setBuffer (b : Buffer) (other : DocumentId) :
    (s.setBuffer id b).document? other =
      (s.document? other).map fun d => if other = id then { d with buffer := b } else d := by
  unfold document? setBuffer
  simp only
  induction s.documents with
  | nil => rfl
  | cons entry rest ih =>
    rcases entry with ⟨n, d⟩
    -- the entry is replaced or kept, and it is the one looked up or not
    by_cases hid : n = id
    · by_cases hother : other = n
      · simp [hid, hother]
      · have hfalse : (other == n) = false := by simpa using hother
        simp only [List.map_cons, List.lookup_cons, hid, if_true] at ih ⊢
        rw [hid] at hfalse
        rw [hfalse]
        exact ih
    · by_cases hother : other = n
      · simp [hid, hother]
      · have hfalse : (other == n) = false := by simpa using hother
        simp only [List.map_cons, List.lookup_cons, hid, if_false, hfalse]
        exact ih

/-- A new buffer keeps the numbers. -/
theorem map_fst_setBuffer (s : Session) (id : DocumentId) (b : Buffer) :
    (s.setBuffer id b).documents.map Prod.fst = s.documents.map Prod.fst := by
  unfold setBuffer
  rw [List.map_map]
  apply List.map_congr_left
  intro entry _
  show Prod.fst (if entry.1 = id then _ else entry) = entry.1
  split
  · rename_i heq
    exact heq.symm
  · rfl

end Documents

/-! ## The invariant -/

/-- What is to be painted, and in which colors. -/
def shown? (s : Session) : Option (Palette × Highlights) :=
  s.highlights?.map fun shown => (s.config.palette, shown.2)

/-- The colors are those of the configuration, the documents are numbered as they were opened, the
active one is open, and the terminal shows what the overlay was asked for, be it current or not. -/
structure IsReady (s : Session) (t : Terminal) : Prop where
  /-- The colors were resolved from the present configuration. -/
  resolved : s.palette = s.config.palette
  /-- Every number is below the one that is given next. -/
  numbered : ∀ entry ∈ s.documents, entry.1 < s.opened
  /-- The active document is open. -/
  activeOpen : ∀ id, s.active? = some id → (s.document? id).isSome
  /-- The overlay and the terminal agree. -/
  shows : ∃ shown?, s.overlay.Shows t shown?

/-- What the terminal shows is what the session asks for; a dormant session may show nothing
instead. -/
structure IsCurrent (s : Session) (t : Terminal) (isDormant : Bool) : Prop extends
    s.IsReady t where
  /-- Nothing else than what is asked for is shown. -/
  current : s.overlay.Shows t none ∨ s.overlay.Shows t s.shown?
  /-- Unless the session is dormant, all that is asked for is shown. -/
  awake : isDormant = false → s.overlay.Shows t s.shown?

/-- A dormant session may turn out to show what it should. -/
theorem IsCurrent.mono {s : Session} {t : Terminal} {isDormant isDormant' : Bool}
    (h : s.IsCurrent t isDormant) (hle : isDormant' = false → isDormant = false) :
    s.IsCurrent t isDormant' :=
  ⟨h.toIsReady, h.current, fun hawake => h.awake (hle hawake)⟩

/-- A change that leaves alone what is to be painted, and the overlay, needs no repainting. -/
theorem IsCurrent.of_shown? {s next : Session} {t : Terminal} {isDormant : Bool}
    (h : s.IsCurrent t isDormant) (hready : next.IsReady t) (hoverlay : next.overlay = s.overlay)
    (hshown : next.shown? = s.shown?) : next.IsCurrent t isDormant := by
  refine ⟨hready, ?_, ?_⟩
  · rw [hoverlay, hshown]
    exact h.current
  · intro hawake
    rw [hoverlay, hshown]
    exact h.awake hawake

/-! ## Sessions that stay ready -/

/-- A session with one more document. -/
def withDocument (s : Session) (d : Document) : Session :=
  { s with documents := s.documents ++ [(s.opened, d)], opened := s.opened + 1 }

/-- A session without the document with a given number. -/
def without (s : Session) (id : DocumentId) : Session :=
  { s with documents := s.documents.filter fun entry => entry.1 != id }

section Ready

variable {s : Session} {t : Terminal} {id : DocumentId}

/-- An open document can become the active one. -/
theorem IsReady.withActive (h : s.IsReady t) (hopen : (s.document? id).isSome) :
    { s with active? := some id }.IsReady t := by
  refine ⟨h.resolved, h.numbered, ?_, h.shows⟩
  intro other hother
  cases hother
  exact hopen

theorem IsReady.withDocument (h : s.IsReady t) (d : Document) : (s.withDocument d).IsReady t := by
  refine ⟨h.resolved, ?_, ?_, h.shows⟩
  · -- the new number is below the next one
    intro entry hentry
    rcases List.mem_append.1 hentry with hold | hnew
    · exact Nat.lt_succ_of_lt (h.numbered entry hold)
    · rw [List.mem_singleton.1 hnew]
      exact Nat.lt_succ_self _
  · -- the document that was active is still open
    intro id hid
    have hopen := h.activeOpen id hid
    unfold document? at hopen ⊢
    show ((s.documents ++ [(s.opened, d)]).lookup id).isSome
    rw [List.lookup_append, Option.isSome_or, hopen]
    rfl

/-- A new document is open. -/
theorem IsReady.document?_withDocument (h : s.IsReady t) (d : Document) :
    ((s.withDocument d).document? s.opened).isSome := by
  show ((s.documents ++ [(s.opened, d)]).lookup s.opened).isSome
  rw [lookup_append_opened h.numbered d]
  rfl

theorem IsReady.withConfig (h : s.IsReady t) (config : Config) :
    { s with config, palette := config.palette }.IsReady t :=
  ⟨rfl, h.numbered, h.activeOpen, h.shows⟩

theorem numbered_without (h : s.IsReady t) (id : DocumentId) :
    ∀ entry ∈ (s.without id).documents, entry.1 < s.opened := by
  intro entry hentry
  exact h.numbered entry (List.mem_filter.1 hentry).1

/-- Without the active document there is none. -/
theorem IsReady.withoutActive (h : s.IsReady t) (id : DocumentId) :
    { s.without id with active? := none }.IsReady t := by
  refine ⟨h.resolved, numbered_without h id, ?_, h.shows⟩
  intro other hother
  cases hother

/-- The active document is kept when another one is closed. -/
theorem document?_without (hinactive : s.active? ≠ some id) {other : DocumentId}
    (hother : s.active? = some other) : (s.without id).document? other = s.document? other := by
  apply document?_filter
  rintro rfl
  exact hinactive hother

theorem IsReady.without (h : s.IsReady t) (hinactive : s.active? ≠ some id) :
    (s.without id).IsReady t := by
  refine ⟨h.resolved, numbered_without h id, ?_, h.shows⟩
  intro other hother
  rw [document?_without hinactive hother]
  exact h.activeOpen other hother

/-- Closing the active document clears. -/
theorem remove_of_active (hactive : s.active? = some id) :
    s.remove id = ({ s.without id with active? := none }.clear.1,
      .event (.closed id) ++ { s.without id with active? := none }.clear.2) := by
  unfold remove
  rw [if_pos hactive]
  rfl

/-- Closing another document does nothing else. -/
theorem remove_of_inactive (hinactive : s.active? ≠ some id) :
    s.remove id = (s.without id, .event (.closed id)) := by
  unfold remove
  rw [if_neg hinactive]
  rfl

end Ready

/-! ## What repaints -/

section Repaint

variable {s : Session} {t : Terminal}

/-- After clearing, nothing is shown. -/
theorem IsReady.clear (h : s.IsReady t) :
    ∃ t', t.performAll? s.clear.2.calls = some t' ∧ s.clear.1.IsReady t' ∧
      s.clear.1.overlay.Shows t' none := by
  rcases h.shows with ⟨shown?, hshows⟩
  rcases hshows.clear with ⟨t', hcalls, hcleared⟩
  exact ⟨t', hcalls, ⟨h.resolved, h.numbered, h.activeOpen, none, hcleared⟩, hcleared⟩

/-- After repainting, all that is asked for is shown, whatever was shown before. -/
theorem IsReady.repaint (h : s.IsReady t) :
    ∃ t', t.performAll? s.repaint.2.calls = some t' ∧ s.repaint.1.IsCurrent t' false := by
  unfold Session.repaint
  cases hwanted : s.highlights? with
  | some shown =>
    rcases shown with ⟨id, highlights⟩
    rcases h.shows with ⟨shown?, hshows⟩
    rcases hshows.apply s.palette highlights with ⟨t', hcalls, happlied⟩
    have hshown : s.shown? = some (s.palette, highlights) := by
      rw [Session.shown?, hwanted, h.resolved]
      rfl
    rw [← hshown] at happlied
    have hready : Session.IsReady { s with overlay := (s.overlay.apply s.palette highlights).1 }
        t' := ⟨h.resolved, h.numbered, h.activeOpen, _, happlied⟩
    exact ⟨t', hcalls, hready, Or.inr happlied, fun _ => happlied⟩
  | none =>
    rcases h.clear with ⟨t', hcalls, hready, hcleared⟩
    have hshown : s.clear.1.shown? = none := by
      show s.shown? = none
      rw [Session.shown?, hwanted]
      rfl
    refine ⟨t', hcalls, hready, Or.inl hcleared, fun _ => ?_⟩
    rw [hshown]
    exact hcleared

/-- Making an open document the active one repaints. -/
theorem IsReady.makeActive (h : s.IsReady t) {id : DocumentId} (hopen : (s.document? id).isSome) :
    ∃ t', t.performAll? (s.makeActive id).2.calls = some t' ∧
      (s.makeActive id).1.IsCurrent t' false :=
  (h.withActive hopen).repaint

/-- Opening a document repaints. -/
theorem IsReady.add (h : s.IsReady t) (d : Document) :
    ∃ t', t.performAll? (s.add d).2.calls = some t' ∧ (s.add d).1.IsCurrent t' false :=
  (h.withDocument d).makeActive (h.document?_withDocument d)

/-- Changing the configuration repaints. -/
theorem IsReady.configure (h : s.IsReady t) (config : Config) :
    ∃ t', t.performAll? (s.configure config).2.calls = some t' ∧
      (s.configure config).1.IsCurrent t' false := by
  rcases (h.withConfig config).repaint with ⟨t', hcalls, hcurrent⟩
  refine ⟨t', ?_, hcurrent⟩
  unfold Session.configure
  -- the event about the status asks for no painting
  have hevent : ∀ e : Effects, e.calls = [] → t.performAll?
      (e ++ { s with config, palette := config.palette }.repaint.2).calls = some t' := by
    intro e he
    show t.performAll? (e.calls ++ _) = _
    rw [he]
    exact hcalls
  apply hevent
  split <;> rfl

end Repaint

/-! ## What does not repaint -/

section Keep

variable {s : Session} {t : Terminal} {isDormant : Bool}

theorem IsReady.setBuffer (h : s.IsReady t) (id : DocumentId) (b : Buffer) :
    (s.setBuffer id b).IsReady t := by
  refine ⟨h.resolved, ?_, ?_, h.shows⟩
  · intro entry hentry
    rcases List.mem_map.1 hentry with ⟨before, hbefore, rfl⟩
    have hlt := h.numbered before hbefore
    split
    · rename_i heq
      rw [heq] at hlt
      exact hlt
    · exact hlt
  · intro other hother
    rw [document?_setBuffer, Option.isSome_map]
    exact h.activeOpen other hother

/-- A new buffer of another document, or one that gives the same highlights, leaves what is to be
painted as it is. -/
theorem shown?_setBuffer {id : DocumentId} {b : Buffer}
    (hsame : s.active? = some id → ∀ d, s.document? id = some d →
      scan b.text (some b.cursorOffset) s.config.mode =
        scan d.buffer.text (some d.buffer.cursorOffset) s.config.mode) :
    (s.setBuffer id b).shown? = s.shown? := by
  have hconfig : (s.setBuffer id b).config = s.config := rfl
  have hactive? : (s.setBuffer id b).active? = s.active? := rfl
  have hhighlights : (s.setBuffer id b).highlights? = s.highlights? := by
    unfold highlights?
    rw [hconfig, hactive?]
    congr 1
    cases hactive : s.active? with
    | none => rfl
    | some other =>
      rw [Option.bind_some, Option.bind_some, document?_setBuffer]
      cases hd : s.document? other with
      | none => rfl
      | some d =>
        rw [Option.map_some, Option.map_some, Option.map_some]
        by_cases hother : other = id
        · rw [if_pos hother]
          rw [hother] at hactive hd
          rw [hsame hactive d hd]
        · rw [if_neg hother]
  unfold shown?
  rw [hhighlights, hconfig]

/-- Moving the cursor keeps the text. -/
theorem text_of_setCursor {b moved : Buffer} {offset : Nat} (h : b.setCursor offset = .ok moved) :
    moved.text = b.text := by
  unfold Buffer.setCursor at h
  cases hindex : b.indexOfOffset offset with
  | error e =>
    rw [hindex] at h
    cases h
  | ok index =>
    rw [hindex] at h
    cases h
    rfl

/-- In full mode the cursor does not matter. -/
theorem scan_full (text : Text) (cursor? cursor?' : Option Nat) :
    scan text cursor? .full = scan text cursor?' .full := by
  cases cursor? <;> cases cursor?' <;> rfl

/-- Closing the active document ends the painting. -/
theorem IsReady.remove_active (h : s.IsReady t) {id : DocumentId} (hactive : s.active? = some id) :
    ∃ t', t.performAll? (s.remove id).2.calls = some t' ∧
      (s.remove id).1.IsCurrent t' false := by
  rw [remove_of_active hactive]
  rcases (h.withoutActive id).clear with ⟨t', hcalls, hcleared, hshows⟩
  -- without an active document there is nothing to paint
  have hshown : { s.without id with active? := none }.clear.1.shown? = none := by
    show Session.shown? { s.without id with active? := none } = none
    unfold shown? highlights?
    split <;> rfl
  refine ⟨t', hcalls, hcleared, Or.inl hshows, ?_⟩
  intro _
  rw [hshown]
  exact hshows

/-- Closing a document that is not active keeps the painting. -/
theorem IsCurrent.remove_inactive (h : s.IsCurrent t isDormant) {id : DocumentId}
    (hactive : s.active? ≠ some id) :
    ∃ t', t.performAll? (s.remove id).2.calls = some t' ∧
      (s.remove id).1.IsCurrent t' isDormant := by
  rw [remove_of_inactive hactive]
  refine ⟨t, rfl, h.of_shown? (h.toIsReady.without hactive) rfl ?_⟩
  have hhighlights : (s.without id).highlights? = s.highlights? := by
    unfold highlights?
    rw [show (s.without id).config = s.config from rfl,
      show (s.without id).active? = s.active? from rfl]
    cases hother : s.active? with
    | none => rfl
    | some other => rw [Option.bind_some, Option.bind_some, document?_without hactive hother]
  unfold shown?
  rw [hhighlights]
  rfl

end Keep

/-! ## Operations -/

/-- Whether an operation repaints if it succeeds. Closing a document and shutting down only clear;
edits matter in the active document, and its cursor in cursor mode. -/
def wouldRepaint (s : Session) (op : Operation) : Bool :=
  match op with
  | .close _ => false
  | .shutdown => false
  | .edit id _ _ _ => s.active? = some id
  | .moveCursor id _ => s.active? = some id ∧ s.config.mode = .cursor
  | _ => true

/-- Whether an operation repaints. -/
def repaints (s : Session) (op : Operation) : Bool :=
  (s.attempt op).isOk && s.wouldRepaint op

/-- Whether a session is dormant after an operation: it was shut down and has not repainted. -/
def isDormantAfter (s : Session) (isDormant : Bool) (op : Operation) : Bool :=
  if s.repaints op then false
  else
    match op with
    | .shutdown => true
    | _ => isDormant

/-- Whether a session is dormant after a run. -/
def isDormantAfterRun (s : Session) (isDormant : Bool) : List Operation → Bool
  | [] => isDormant
  | op :: rest => (s.perform op).1.isDormantAfterRun (s.isDormantAfter isDormant op) rest

section Step

variable {s : Session} {t : Terminal} {isDormant : Bool}

theorem perform_of_ok {op : Operation} {next : Session} {effects : Effects} {outcome : Outcome}
    (h : s.attempt op = .ok (next, effects, outcome)) :
    s.perform op = (next, effects, .ok outcome) := by
  unfold perform
  rw [h]

theorem perform_of_error {op : Operation} {e : SessionError} (h : s.attempt op = .error e) :
    s.perform op = (s, .none, .error e) := by
  unfold perform
  rw [h]

/-- Without repainting, no session wakes up. -/
theorem eq_false_of_isDormantAfter {op : Operation} (hquiet : s.repaints op = false)
    (h : s.isDormantAfter isDormant op = false) : isDormant = false := by
  unfold isDormantAfter at h
  rw [hquiet, if_neg (by decide)] at h
  split at h
  · cases h
  · exact h

/-- The paint calls of an operation are not refused, and afterwards the painting is current. -/
def StaysCurrent (s : Session) (t : Terminal) (isDormant : Bool) (op : Operation) : Prop :=
  ∃ t', t.performAll? (s.perform op).2.1.calls = some t' ∧
    (s.perform op).1.IsCurrent t' (s.isDormantAfter isDormant op)

/-- An operation that fails changes nothing. -/
theorem IsCurrent.of_error (h : s.IsCurrent t isDormant) {op : Operation} {e : SessionError}
    (herror : s.attempt op = .error e) : s.StaysCurrent t isDormant op := by
  unfold StaysCurrent
  rw [perform_of_error herror]
  refine ⟨t, rfl, h.mono (eq_false_of_isDormantAfter ?_)⟩
  rw [repaints, herror]
  rfl

/-- An operation after which nothing is out of date. -/
theorem StaysCurrent.of_repainted {op : Operation} {next : Session} {effects : Effects}
    {outcome : Outcome} (hok : s.attempt op = .ok (next, effects, outcome))
    (h : ∃ t', t.performAll? effects.calls = some t' ∧ next.IsCurrent t' false) :
    s.StaysCurrent t isDormant op := by
  rcases h with ⟨t', hcalls, hcurrent⟩
  unfold StaysCurrent
  rw [perform_of_ok hok]
  exact ⟨t', hcalls, hcurrent.mono fun _ => rfl⟩

/-- An operation that leaves the session as dormant as it was. -/
theorem StaysCurrent.of_kept {op : Operation} {next : Session} {effects : Effects}
    {outcome : Outcome} (hok : s.attempt op = .ok (next, effects, outcome))
    (hquiet : s.wouldRepaint op = false)
    (h : ∃ t', t.performAll? effects.calls = some t' ∧ next.IsCurrent t' isDormant) :
    s.StaysCurrent t isDormant op := by
  rcases h with ⟨t', hcalls, hcurrent⟩
  unfold StaysCurrent
  rw [perform_of_ok hok]
  refine ⟨t', hcalls, hcurrent.mono (eq_false_of_isDormantAfter ?_)⟩
  rw [repaints, hquiet, Bool.and_false]

/-- An operation that changes one buffer repaints if it has to, and may leave the painting alone if
the highlights stay the same. -/
theorem StaysCurrent.of_setBuffer (h : s.IsCurrent t isDormant) {op : Operation}
    {id : DocumentId} {b : Buffer} {outcome : Outcome}
    (hok : s.attempt op = .ok (((s.setBuffer id b).repaintIf (s.wouldRepaint op)).1,
      ((s.setBuffer id b).repaintIf (s.wouldRepaint op)).2, outcome))
    (hsame : s.wouldRepaint op = false → s.active? = some id → ∀ d, s.document? id = some d →
      scan b.text (some b.cursorOffset) s.config.mode =
        scan d.buffer.text (some d.buffer.cursorOffset) s.config.mode) :
    s.StaysCurrent t isDormant op := by
  have hready := h.toIsReady.setBuffer id b
  cases hneeded : s.wouldRepaint op with
  | true =>
    rw [hneeded] at hok
    exact .of_repainted hok hready.repaint
  | false =>
    have hkept := shown?_setBuffer (hsame hneeded)
    rw [hneeded] at hok
    exact .of_kept hok hneeded ⟨t, rfl, h.of_shown? hready rfl hkept⟩

section Attempt

variable {id : DocumentId} {d : Document}

/-- An operation on a document that is not open fails. -/
theorem buffer_of_none (hd : s.document? id = none) : s.buffer id = .error (.noDocument id) := by
  unfold buffer
  rw [hd]

theorem buffer_of_some (hd : s.document? id = some d) : s.buffer id = .ok d.buffer := by
  unfold buffer
  rw [hd]

theorem IsCurrent.activate (h : s.IsCurrent t isDormant) (id : DocumentId) :
    s.StaysCurrent t isDormant (.activate id) := by
  cases hd : s.document? id with
  | none => exact h.of_error (by rw [attempt, buffer_of_none hd]; rfl)
  | some d =>
    have hok : s.attempt (.activate id) =
        .ok ((s.makeActive id).1, (s.makeActive id).2, .done) := by
      rw [attempt, buffer_of_some hd]
      rfl
    exact .of_repainted hok (h.toIsReady.makeActive (by rw [hd]; rfl))

theorem IsCurrent.close (h : s.IsCurrent t isDormant) (id : DocumentId) :
    s.StaysCurrent t isDormant (.close id) := by
  cases hd : s.document? id with
  | none => exact h.of_error (by rw [attempt, buffer_of_none hd]; rfl)
  | some d =>
    have hok : s.attempt (.close id) = .ok ((s.remove id).1, (s.remove id).2, .done) := by
      rw [attempt, buffer_of_some hd]
      rfl
    by_cases hactive : s.active? = some id
    · exact .of_repainted hok (h.toIsReady.remove_active hactive)
    · exact .of_kept hok rfl (h.remove_inactive hactive)

theorem IsCurrent.edit (h : s.IsCurrent t isDormant) (id : DocumentId) (start stop : Nat)
    (text : Text) : s.StaysCurrent t isDormant (.edit id start stop text) := by
  cases hd : s.document? id with
  | none => exact h.of_error (by rw [attempt, buffer_of_none hd]; rfl)
  | some d =>
    cases hedit : d.buffer.replace start stop text with
    | error e =>
      have herror : s.attempt (.edit id start stop text) = .error (.buffer e) := by
        simp only [attempt, buffer_of_some hd, bind, Except.bind, hedit]
        rfl
      exact h.of_error herror
    | ok edited =>
      have hok : s.attempt (.edit id start stop text) =
          .ok (((s.setBuffer id edited.1).repaintIf (s.active? = some id)).1,
            ((s.setBuffer id edited.1).repaintIf (s.active? = some id)).2, .done) := by
        simp only [attempt, buffer_of_some hd, bind, Except.bind, hedit]
        rfl
      -- an edit of the active document always repaints
      refine .of_setBuffer h hok ?_
      intro hneeded hactive
      simp [wouldRepaint, hactive] at hneeded

theorem IsCurrent.moveCursor (h : s.IsCurrent t isDormant) (id : DocumentId) (offset : Nat) :
    s.StaysCurrent t isDormant (.moveCursor id offset) := by
  cases hd : s.document? id with
  | none => exact h.of_error (by rw [attempt, buffer_of_none hd]; rfl)
  | some d =>
    cases hmove : d.buffer.setCursor offset with
    | error e =>
      have herror : s.attempt (.moveCursor id offset) = .error (.buffer e) := by
        simp only [attempt, buffer_of_some hd, bind, Except.bind, hmove]
        rfl
      exact h.of_error herror
    | ok moved =>
      have hok : s.attempt (.moveCursor id offset) =
          .ok (((s.setBuffer id moved).repaintIf
              (decide (s.active? = some id ∧ s.config.mode = .cursor))).1,
            ((s.setBuffer id moved).repaintIf
              (decide (s.active? = some id ∧ s.config.mode = .cursor))).2, .done) := by
        simp only [attempt, buffer_of_some hd, bind, Except.bind, hmove]
        rfl
      refine .of_setBuffer h hok ?_
      intro hneeded hactive d' hd'
      -- the mode is the full one, and only the cursor has moved
      rw [hd] at hd'
      cases hd'
      have hmode : s.config.mode = .full := by
        cases hmode : s.config.mode with
        | full => rfl
        | cursor => simp [wouldRepaint, hactive, hmode] at hneeded
      rw [hmode, text_of_setCursor hmove]
      exact scan_full _ _ _

end Attempt

/-- Every operation keeps the painting current. -/
theorem IsCurrent.perform (h : s.IsCurrent t isDormant) (op : Operation) :
    s.StaysCurrent t isDormant op := by
  have hready := h.toIsReady
  cases op with
  | openText text => exact .of_repainted rfl (hready.add _)
  | openFile path content? =>
    cases hfile : Document.ofFile path content? with
    | error e => exact h.of_error (by rw [attempt, hfile])
    | ok d => exact .of_repainted (by rw [attempt, hfile]) (hready.add d)
  | activate id => exact h.activate id
  | close id => exact h.close id
  | edit id start stop text => exact h.edit id start stop text
  | moveCursor id offset => exact h.moveCursor id offset
  | configure config => exact .of_repainted rfl (hready.configure config)
  | toggle => exact .of_repainted rfl (hready.configure _)
  | setMode mode => exact .of_repainted rfl (hready.configure _)
  | setPreset preset => exact .of_repainted rfl (hready.configure _)
  | rescan => exact .of_repainted rfl hready.repaint
  | shutdown =>
    rcases hready.clear with ⟨t', hcalls, hcleared, hshows⟩
    refine ⟨t', hcalls, hcleared, Or.inl hshows, ?_⟩
    intro hawake
    cases hawake

/-- A run keeps the painting current. -/
theorem IsCurrent.run (h : s.IsCurrent t isDormant) (ops : List Operation) :
    ∃ t', t.performAll? (s.run ops).2.calls = some t' ∧
      (s.run ops).1.IsCurrent t' (s.isDormantAfterRun isDormant ops) := by
  induction ops generalizing s t isDormant with
  | nil => exact ⟨t, rfl, h⟩
  | cons op rest ih =>
    -- the calls of the first operation lead to the terminal on which the others go on
    rcases h.perform op with ⟨next, hcalls, hnext⟩
    rcases ih hnext with ⟨t', hlater, hlast⟩
    refine ⟨t', ?_, hlast⟩
    show t.performAll? ((s.perform op).2.1.calls ++ _) = _
    rw [Terminal.performAll?_append, hcalls]
    exact hlater

end Step

theorem isCurrent_start (config : Config) :
    (Session.start config).IsCurrent Terminal.empty false := by
  have hshows : Overlay.empty.Shows Terminal.empty none := .nothing 0
  have hshown : (Session.start config).shown? = none := by
    unfold shown? highlights?
    split <;> rfl
  refine ⟨⟨rfl, ?_, ?_, none, hshows⟩, Or.inl hshows, ?_⟩
  · intro entry hentry
    cases hentry
  · intro id hid
    cases hid
  · intro _
    rw [hshown]
    exact hshows

/-! ## What is on the screen -/

/-- A session paints what it should: its live handles show the highlights of the active document
in the colors of the configuration, nothing else is shown, and unless the session is dormant there
are live handles exactly when there is something to highlight. -/
structure PaintsTruly (s : Session) (t : Terminal) (isDormant : Bool) : Prop where
  /-- The active document is open. -/
  activeOpen : ∀ id, s.active? = some id → (s.document? id).isSome
  /-- Live handles show the current highlights in the current colors. -/
  fresh : ∀ set, s.overlay.live? = some set → ∃ id d, s.config.isEnabled = true ∧
    s.active? = some id ∧ s.document? id = some d ∧
      ∀ c, t.slots[set.handles.get c]? = some (some ⟨c, Style.ofCategory s.config.palette c,
        (scan d.buffer.text (some d.buffer.cursorOffset) s.config.mode).get c⟩)
  /-- There are no other decorations than those of the live handles. -/
  noOthers : t.live.length = if s.isPainting then Category.all.length else 0
  /-- All that should be painted is. -/
  complete : isDormant = false →
    (s.isPainting = true ↔ s.config.isEnabled = true ∧ s.active?.isSome = true)

theorem highlights?_eq_some {s : Session} {id : DocumentId} {h : Highlights}
    (hwanted : s.highlights? = some (id, h)) : ∃ d, s.config.isEnabled = true ∧
      s.active? = some id ∧ s.document? id = some d ∧
        h = scan d.buffer.text (some d.buffer.cursorOffset) s.config.mode := by
  unfold highlights? at hwanted
  split at hwanted
  · rename_i henabled
    rcases Option.bind_eq_some_iff.1 hwanted with ⟨other, hactive, hmap⟩
    rcases Option.map_eq_some_iff.1 hmap with ⟨d, hd, heq⟩
    cases heq
    exact ⟨d, henabled, hactive, hd, rfl⟩
  · cases hwanted

/-- There is something to highlight when highlighting is on and a document is active. -/
theorem isSome_shown? {s : Session}
    (hopen : ∀ id, s.active? = some id → (s.document? id).isSome) :
    s.shown?.isSome = true ↔ s.config.isEnabled = true ∧ s.active?.isSome = true := by
  unfold shown? highlights?
  rw [Option.isSome_map]
  constructor
  · intro h
    split at h
    · rename_i henabled
      refine ⟨henabled, ?_⟩
      cases hactive : s.active? with
      | none =>
        rw [hactive] at h
        cases h
      | some id => rfl
    · cases h
  · rintro ⟨henabled, hactive⟩
    rw [if_pos henabled]
    rcases Option.isSome_iff_exists.1 hactive with ⟨id, hid⟩
    rw [hid, Option.bind_some, Option.isSome_map]
    exact hopen id hid

theorem IsCurrent.paintsTruly {s : Session} {t : Terminal} {isDormant : Bool}
    (h : s.IsCurrent t isDormant) : s.PaintsTruly t isDormant := by
  refine ⟨h.activeOpen, ?_, ?_, ?_⟩
  · intro set hset
    rcases h.current with hshows | hshows
    · -- nothing is shown, so no handle is alive
      rcases hshows.of_live hset with ⟨palette, highlights, hshown, -⟩
      cases hshown
    · rcases hshows.of_live hset with ⟨palette, highlights, hshown, hslots⟩
      rcases Option.map_eq_some_iff.1 hshown with ⟨⟨id, wanted⟩, hwanted, heq⟩
      rcases highlights?_eq_some hwanted with ⟨d, henabled, hactive, hd, rfl⟩
      cases heq
      exact ⟨id, d, henabled, hactive, hd, hslots⟩
  · rcases h.shows with ⟨shown?, hshows⟩
    exact hshows.length_live
  · intro hawake
    rw [← isSome_shown? h.activeOpen, ← (h.awake hawake).isLive_eq]
    rfl

/-- After every run of operations, failing ones included, a session paints what it should. -/
theorem run_paintsTruly (config : Config) (ops : List Operation) :
    ∃ t, Terminal.empty.performAll? ((Session.start config).run ops).2.calls = some t ∧
      ((Session.start config).run ops).1.PaintsTruly t
        ((Session.start config).isDormantAfterRun false ops) := by
  rcases (isCurrent_start config).run ops with ⟨t, hcalls, hcurrent⟩
  exact ⟨t, hcalls, hcurrent.paintsTruly⟩

end Session

end ClassHighlight
