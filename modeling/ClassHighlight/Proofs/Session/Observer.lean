import Mathlib.Tactic.ByContra
import ClassHighlight.Proofs.Session.Operation

/-!
# What observers know

An observer hears the events of a session from its start and keeps a picture of it: the open
documents, the active one, how many spans of each category are painted, and the status. After every
operation the picture is true of the session and of what its live handles show. That painting has
ended is told only while something is painted, so it is never told twice in a row.
-/

namespace ClassHighlight

/-- What an observer has gathered from the events so far. -/
structure Observer where
  /-- The open documents. -/
  documents : List DocumentId
  /-- The active document, if any. -/
  active? : Option DocumentId
  /-- While something is painted, the number of spans in each category. -/
  painted? : Option (ByCategory Nat)
  /-- The status. -/
  status : Status
deriving DecidableEq, Repr

namespace Observer

/-- An observer of a session that has just started with a status. -/
def start (status : Status) : Observer := ⟨[], none, none, status⟩

/-- Hears one event. -/
def hear (o : Observer) : Event → Observer
  | .opened id => { o with documents := o.documents ++ [id] }
  | .activated id => { o with active? := some id }
  | .closed id =>
    { o with
      documents := o.documents.filter fun other => other != id
      active? := if o.active? = some id then none else o.active? }
  | .applied _ counts => { o with painted? := some counts }
  | .cleared => { o with painted? := none }
  | .status status => { o with status }

/-- Hears events one after the other. -/
def hearAll (o : Observer) (events : List Event) : Observer :=
  events.foldl hear o

theorem hearAll_append (o : Observer) (first later : List Event) :
    o.hearAll (first ++ later) = (o.hearAll first).hearAll later :=
  List.foldl_append

/-! ## The end of painting -/

/-- Events that tell of the end of painting only while something is painted. -/
def ClearsPainted (o : Observer) : List Event → Prop
  | [] => True
  | e :: rest => (e = .cleared → o.painted?.isSome = true) ∧ (o.hear e).ClearsPainted rest

theorem clearsPainted_append {o : Observer} {first later : List Event} :
    o.ClearsPainted (first ++ later) ↔
      o.ClearsPainted first ∧ (o.hearAll first).ClearsPainted later := by
  induction first generalizing o with
  | nil => exact (and_iff_right trivial).symm
  | cons e rest ih =>
    show _ ∧ (o.hear e).ClearsPainted (rest ++ later) ↔ (_ ∧ _) ∧ _
    rw [ih, and_assoc]
    rfl

/-- Painting starts only when highlights are applied. -/
theorem painted?_hearAll {o : Observer} (hnone : o.painted? = none) {events : List Event}
    (hquiet : ∀ id counts, .applied id counts ∉ events) : (o.hearAll events).painted? = none := by
  induction events generalizing o with
  | nil => exact hnone
  | cons e rest ih =>
    apply ih
    · cases e with
      | applied id counts => exact absurd List.mem_cons_self (hquiet id counts)
      | cleared => rfl
      | opened id => exact hnone
      | activated id => exact hnone
      | closed id => exact hnone
      | status status => exact hnone
    · intro id counts hin
      exact hquiet id counts (List.mem_cons_of_mem _ hin)

/-- Between two ends of painting highlights are applied. -/
theorem ClearsPainted.applied_between {o : Observer} {before between after : List Event}
    (h : o.ClearsPainted (before ++ .cleared :: (between ++ .cleared :: after))) :
    ∃ id counts, .applied id counts ∈ between := by
  rw [clearsPainted_append] at h
  have hlater : ((o.hearAll before).hear .cleared).ClearsPainted (between ++ .cleared :: after) :=
    h.2.2
  rw [clearsPainted_append] at hlater
  have hpainted := hlater.2.1 rfl
  by_contra hquiet
  -- otherwise nothing would be painted when the second end is told
  have hnone : (((o.hearAll before).hear .cleared).hearAll between).painted? = none :=
    painted?_hearAll rfl fun id counts hin => hquiet ⟨id, counts, hin⟩
  rw [hnone] at hpainted
  cases hpainted

end Observer

namespace Session

/-! ## The invariant -/

/-- The picture of an observer is true of a session that is ready, and of its terminal. -/
structure IsObserved (s : Session) (t : Terminal) (o : Observer) : Prop extends s.IsReady t where
  /-- The open documents are known. -/
  documents : o.documents = s.documents.map Prod.fst
  /-- The active document is known. -/
  active : o.active? = s.active?
  /-- The status is known. -/
  status : o.status = s.status
  /-- It is known how much the terminal shows. -/
  painted : ∃ shown?, s.overlay.Shows t shown? ∧
    o.painted? = shown?.map fun shown => shown.2.counts

/-- An observer is told of the effects that lead to a session: the terminal refuses no call, the end
of painting is told only if something was painted, and afterwards the picture is true. -/
def Tells (t : Terminal) (o : Observer) (step : Session × Effects) : Prop :=
  ∃ t', t.performAll? step.2.calls = some t' ∧ o.ClearsPainted step.2.events ∧
    step.1.IsObserved t' (o.hearAll step.2.events)

section Tells

variable {s : Session} {t : Terminal} {o : Observer}

/-- Where nothing happens, nothing is told. -/
theorem IsObserved.silent (h : s.IsObserved t o) : Tells t o (s, .none) :=
  ⟨t, rfl, trivial, h⟩

/-- An event that does not end the painting is told before other effects. -/
theorem Tells.event {e : Event} {next : Session} {effects : Effects} (hne : e ≠ .cleared)
    (h : Tells t (o.hear e) (next, effects)) : Tells t o (next, .event e ++ effects) := by
  rcases h with ⟨t', hcalls, hclears, hobserved⟩
  exact ⟨t', hcalls, ⟨fun heq => absurd heq hne, hclears⟩, hobserved⟩

/-- The end of painting is told when something was painted. -/
theorem IsObserved.clear (h : s.IsObserved t o) : Tells t o s.clear := by
  rcases h.toIsReady.clear with ⟨t', hcalls, hready, hcleared⟩
  rcases h.painted with ⟨shown?, hshows, hpainted⟩
  have hevents : s.clear.2.events = if shown?.isSome then [.cleared] else [] := by
    rw [← hshows.isLive_eq]
    rfl
  refine ⟨t', hcalls, ?_⟩
  rw [hevents]
  cases shown? with
  | none =>
    -- nothing was painted, and nothing is told
    exact ⟨trivial, hready, h.documents, h.active, h.status, none, hcleared, hpainted⟩
  | some shown =>
    have hsome : o.painted?.isSome = true := by
      rw [hpainted]
      rfl
    exact ⟨⟨fun _ => hsome, trivial⟩, hready, h.documents, h.active, h.status, none, hcleared, rfl⟩

/-- When highlights are applied, their numbers are told. -/
theorem IsObserved.repaint (h : s.IsObserved t o) : Tells t o s.repaint := by
  cases hwanted : s.highlights? with
  | none =>
    have hrepaint : s.repaint = s.clear := by
      unfold Session.repaint
      rw [hwanted]
    rw [hrepaint]
    exact h.clear
  | some wanted =>
    rcases wanted with ⟨id, highlights⟩
    have hrepaint : s.repaint = ({ s with overlay := (s.overlay.apply s.palette highlights).1 },
        ⟨(s.overlay.apply s.palette highlights).2, [.applied id highlights.counts]⟩) := by
      unfold Session.repaint
      rw [hwanted]
    rcases h.toIsReady.repaint with ⟨t', hcalls, hcurrent⟩
    rw [hrepaint] at hcalls hcurrent ⊢
    have hshows := hcurrent.awake rfl
    have hshown : Session.shown? { s with overlay := (s.overlay.apply s.palette highlights).1 } =
        some (s.config.palette, highlights) := by
      show s.highlights?.map _ = _
      rw [hwanted]
      rfl
    rw [hshown] at hshows
    refine ⟨t', hcalls, ⟨fun heq => ?_, trivial⟩, hcurrent.toIsReady, h.documents, h.active,
      h.status, _, hshows, rfl⟩
    cases heq

/-- That a document becomes the active one is told. -/
theorem IsObserved.makeActive (h : s.IsObserved t o) {id : DocumentId}
    (hopen : (s.document? id).isSome) : Tells t o (s.makeActive id) := by
  have hnext : { s with active? := some id }.IsObserved t (o.hear (.activated id)) :=
    ⟨h.toIsReady.withActive hopen, h.documents, rfl, h.status, h.painted⟩
  exact hnext.repaint.event (by simp)

/-- That a document is opened is told. -/
theorem IsObserved.add (h : s.IsObserved t o) (d : Document) : Tells t o (s.add d) := by
  have hdocuments : o.documents ++ [s.opened] = (s.withDocument d).documents.map Prod.fst := by
    show _ = (s.documents ++ [(s.opened, d)]).map Prod.fst
    rw [List.map_append, h.documents]
    rfl
  have hnext : (s.withDocument d).IsObserved t (o.hear (.opened s.opened)) :=
    ⟨h.toIsReady.withDocument d, hdocuments, h.active, h.status, h.painted⟩
  exact (hnext.makeActive (h.toIsReady.document?_withDocument d)).event (by simp)

theorem map_fst_filter (documents : List (DocumentId × Document)) (id : DocumentId) :
    (documents.filter fun entry => entry.1 != id).map Prod.fst =
      (documents.map Prod.fst).filter fun other => other != id := by
  rw [List.filter_map]
  rfl

/-- That a document is closed is told, and that painting ends if it was the active one. -/
theorem IsObserved.remove (h : s.IsObserved t o) (id : DocumentId) : Tells t o (s.remove id) := by
  have hdocuments : (o.hear (.closed id)).documents = (s.without id).documents.map Prod.fst := by
    show o.documents.filter _ = _
    rw [h.documents, ← map_fst_filter]
    rfl
  have hactive : (o.hear (.closed id)).active? =
      if s.active? = some id then none else s.active? := by
    rw [← h.active]
    rfl
  by_cases his : s.active? = some id
  · rw [if_pos his] at hactive
    have hnext : { s.without id with active? := none }.IsObserved t (o.hear (.closed id)) :=
      ⟨h.toIsReady.withoutActive id, hdocuments, hactive, h.status, h.painted⟩
    rw [remove_of_active his]
    exact hnext.clear.event (by simp)
  · rw [if_neg his] at hactive
    have hnext : (s.without id).IsObserved t (o.hear (.closed id)) :=
      ⟨h.toIsReady.without his, hdocuments, hactive, h.status, h.painted⟩
    rw [remove_of_inactive his]
    exact hnext.silent.event (by simp)

/-- That the status changes is told before the painting follows. -/
theorem IsObserved.configure (h : s.IsObserved t o) (config : Config) :
    Tells t o (s.configure config) := by
  have hready := h.toIsReady.withConfig config
  unfold Session.configure
  by_cases hsame : config.status = s.config.status
  · have hnext : { s with config, palette := config.palette }.IsObserved t o :=
      ⟨hready, h.documents, h.active, h.status.trans hsame.symm, h.painted⟩
    rw [if_pos hsame]
    exact hnext.repaint
  · have hnext : { s with config, palette := config.palette }.IsObserved t
        (o.hear (.status config.status)) :=
      ⟨hready, h.documents, h.active, rfl, h.painted⟩
    rw [if_neg hsame]
    exact hnext.repaint.event (by simp)

/-- A new buffer of a document is not told, but what is painted because of it is. -/
theorem IsObserved.setBuffer (h : s.IsObserved t o) (id : DocumentId) (b : Buffer)
    (needed : Bool) : Tells t o ((s.setBuffer id b).repaintIf needed) := by
  have hnext : (s.setBuffer id b).IsObserved t o := by
    refine ⟨h.toIsReady.setBuffer id b, ?_, h.active, h.status, h.painted⟩
    rw [h.documents, map_fst_setBuffer]
  cases needed with
  | true => exact hnext.repaint
  | false => exact hnext.silent

/-! ## Operations -/

/-- Whatever succeeds is told. -/
theorem IsObserved.succeeds (h : s.IsObserved t o) {op : Operation} {step : Session × Effects}
    (hstep : s.Succeeds op step) : Tells t o step := by
  cases hstep with
  | openText text => exact h.add _
  | openFile hread => exact h.add _
  | activate hopen => exact h.makeActive (by rw [hopen]; rfl)
  | close hopen => exact h.remove _
  | edit hopen hedit => exact h.setBuffer _ _ _
  | moveCursor hopen hmove => exact h.setBuffer _ _ _
  | configure config => exact h.configure config
  | toggle => exact h.configure _
  | setMode mode => exact h.configure _
  | setPreset preset => exact h.configure _
  | rescan => exact h.repaint
  | shutdown => exact h.clear

/-- After an operation the picture is true, also if it failed. -/
theorem IsObserved.perform (h : s.IsObserved t o) (op : Operation) :
    Tells t o ((s.perform op).1, (s.perform op).2.1) := by
  rcases s.perform_cases op with ⟨e, hfails⟩ | ⟨next, effects, outcome, hgives, hsucceeds⟩
  · rw [hfails]
    exact h.silent
  · rw [hgives]
    exact h.succeeds hsucceeds

/-- After a run the picture is true. -/
theorem IsObserved.run (h : s.IsObserved t o) (ops : List Operation) : Tells t o (s.run ops) := by
  induction ops generalizing s t o with
  | nil => exact h.silent
  | cons op rest ih =>
    -- the observer hears the other operations with the picture after the first one
    rcases h.perform op with ⟨next, hcalls, hclears, hobserved⟩
    rcases ih hobserved with ⟨last, hlater, hlast, htrue⟩
    refine ⟨last, ?_, ?_, ?_⟩
    · show t.performAll? ((s.perform op).2.1.calls ++ _) = _
      rw [Terminal.performAll?_append, hcalls]
      exact hlater
    · exact Observer.clearsPainted_append.2 ⟨hclears, hlast⟩
    · show Session.IsObserved _ _ (o.hearAll ((s.perform op).2.1.events ++ _))
      rw [Observer.hearAll_append]
      exact htrue

end Tells

theorem isObserved_start (config : Config) :
    (Session.start config).IsObserved Terminal.empty (.start config.status) :=
  ⟨(isCurrent_start config).toIsReady, rfl, rfl, rfl, none, .nothing 0, rfl⟩

/-! ## What an observer can rely on -/

/-- The picture of an observer is that of a session and of what its live handles show. -/
structure IsPicturedBy (s : Session) (t : Terminal) (o : Observer) : Prop where
  /-- The open documents are those of the session. -/
  documents : o.documents = s.documents.map Prod.fst
  /-- The active document is that of the session. -/
  active : o.active? = s.active?
  /-- It is one of the open documents. -/
  activeOpen : ∀ id, o.active? = some id → id ∈ o.documents
  /-- Something is painted as long as there are live handles. -/
  painting : o.painted?.isSome = s.isPainting
  /-- The numbers are those of the spans that the live handles show. -/
  counts : ∀ set, s.overlay.live? = some set → ∃ counts, o.painted? = some counts ∧
    ∀ c, ∃ d, t.slots[set.handles.get c]? = some (some d) ∧ d.category = c ∧
      d.spans.length = counts.get c
  /-- The status is that of the session. -/
  status : o.status = s.status

theorem mem_of_document? {s : Session} {id : DocumentId} (h : (s.document? id).isSome) :
    id ∈ s.documents.map Prod.fst := by
  by_contra hnot
  have hnone : s.document? id = none := by
    unfold document?
    rw [List.lookup_eq_none_iff]
    intro entry hentry
    rw [bne_iff_ne]
    rintro rfl
    exact hnot (List.mem_map_of_mem hentry)
  rw [hnone] at h
  cases h

theorem IsObserved.isPicturedBy {s : Session} {t : Terminal} {o : Observer}
    (h : s.IsObserved t o) : s.IsPicturedBy t o := by
  rcases h.painted with ⟨shown?, hshows, hpainted⟩
  refine ⟨h.documents, h.active, ?_, ?_, ?_, h.status⟩
  · intro id hid
    rw [h.documents]
    rw [h.active] at hid
    exact mem_of_document? (h.activeOpen id hid)
  · rw [hpainted, Option.isSome_map, ← hshows.isLive_eq]
    rfl
  · intro set hset
    rcases hshows.of_live hset with ⟨palette, highlights, rfl, hslots⟩
    refine ⟨highlights.counts, hpainted, ?_⟩
    intro c
    refine ⟨_, hslots c, rfl, ?_⟩
    rw [Highlights.counts, ByCategory.get_map]

/-- After every run of operations, failing ones included, the picture of an observer is true, and
highlights were applied between any two events that tell of the end of painting. -/
theorem run_isPicturedBy (config : Config) (ops : List Operation) :
    (∃ t, Terminal.empty.performAll? ((Session.start config).run ops).2.calls = some t ∧
        ((Session.start config).run ops).1.IsPicturedBy t
          ((Observer.start config.status).hearAll ((Session.start config).run ops).2.events)) ∧
      ∀ before between after, ((Session.start config).run ops).2.events =
        before ++ .cleared :: (between ++ .cleared :: after) →
        ∃ id counts, .applied id counts ∈ between := by
  rcases (isObserved_start config).run ops with ⟨t, hcalls, hclears, hobserved⟩
  refine ⟨⟨t, hcalls, hobserved.isPicturedBy⟩, ?_⟩
  intro before between after heq
  rw [heq] at hclears
  exact hclears.applied_between

end Session

end ClassHighlight
