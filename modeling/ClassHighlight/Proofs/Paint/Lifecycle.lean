import ClassHighlight.Proofs.Paint.Log
import ClassHighlight.Proofs.Session.Painting

/-!
# The life of decorations

An overlay creates one decoration for each category when it needs them, and disposes all of them
before it creates others or when it shows nothing any more. So whatever it is asked for, the log of
its host is sound, no more than one decoration of each category is ever alive, and the live ones are
those that the overlay knows. A session leaves none behind when it ends.
-/

namespace ClassHighlight

namespace Overlay

/-! ## Runs -/

theorem run_append (o : Overlay) (first later : List Operation) :
    o.run (first ++ later) = (((o.run first).1.run later).1,
      (o.run first).2 ++ ((o.run first).1.run later).2) := by
  induction first generalizing o with
  | nil => rfl
  | cons op rest ih =>
    show (((o.perform op).1.run (rest ++ later)).1,
      (o.perform op).2.1 ++ ((o.perform op).1.run (rest ++ later)).2) = _
    rw [ih, ← List.append_assoc]
    rfl

/-- The last operation of a run. -/
theorem run_concat (o : Overlay) (ops : List Operation) (op : Operation) :
    o.run (ops ++ [op]) = (((o.run ops).1.perform op).1,
      (o.run ops).2 ++ ((o.run ops).1.perform op).2.1) := by
  rw [run_append]
  show (((o.run ops).1.perform op).1, (o.run ops).2 ++ (((o.run ops).1.perform op).2.1 ++ [])) = _
  rw [List.append_nil]

/-! ## What an overlay keeps alive -/

/-- The log of its calls agrees with what an overlay holds to be alive. -/
structure Keeps (o : Overlay) (log : PaintLog) : Prop where
  /-- Each decoration is used while it is alive, and disposed at most once. -/
  sound : log.IsSound
  /-- There are never more decorations than categories. -/
  few : log.HasFewAlive
  /-- Unless the overlay is live, no decoration is. -/
  nothing : o.isLive = false → log.alive = []
  /-- Otherwise there is one for each category, made for it in the colors of the palette. -/
  oneEach : ∀ set, o.live? = some set → log.alive = set.handles.toList ∧
    ∀ c, .create (set.handles.get c) c (Style.ofCategory set.palette c) ∈ log

/-- Each category has a live decoration, made for it in the colors of a palette, that was last asked
to paint just the spans of that category. -/
def Displays (o : Overlay) (log : PaintLog) (palette : Palette) (h : Highlights) : Prop :=
  ∃ set, o.live? = some set ∧ ∀ c,
    .create (set.handles.get c) c (Style.ofCategory palette c) ∈ log ∧
      log.painted? (set.handles.get c) = some (h.get c)

section Alive

variable {o : Overlay} {t : Terminal} {log : PaintLog} {shown? : Option (Palette × Highlights)}

theorem isAlive_behind_disposed (count : Nat) (slots : List (Option Decoration)) (handle : Nat) :
    (⟨List.replicate count none ++ slots⟩ : Terminal).isAlive (count + handle) =
      (⟨slots⟩ : Terminal).isAlive handle := by
  have hbehind := Terminal.isAlive_behind (List.replicate count none) ⟨slots⟩ handle
  rw [List.length_replicate] at hbehind
  exact hbehind

theorem filter_isAlive_disposed (count : Nat) (slots : List (Option Decoration)) :
    (List.range count).filter (⟨List.replicate count none ++ slots⟩ : Terminal).isAlive = [] := by
  rw [List.filter_eq_nil_iff]
  intro handle hlt halive
  rcases Terminal.isAlive_iff.1 halive with ⟨d, hd⟩
  have hlt' : handle < (List.replicate count (none : Option Decoration)).length := by
    rw [List.length_replicate]
    exact List.mem_range.1 hlt
  rw [List.getElem?_append_left hlt', List.getElem?_replicate] at hd
  split at hd <;> cases hd

/-- The live decorations of a log are those that the overlay knows. -/
theorem Shows.alive_eq (hshows : o.Shows t shown?) (hrecords : t.Records log) :
    log.alive = (o.live?.map fun set => set.handles.toList).getD [] := by
  rw [hrecords.alive_eq]
  cases hshows with
  | nothing count =>
    have hnone := filter_isAlive_disposed count []
    rw [List.append_nil] at hnone
    rw [List.length_replicate, hnone]
    rfl
  | highlights count palette h =>
    rw [List.length_append, List.length_replicate, List.range_add, List.filter_append,
      filter_isAlive_disposed, List.nil_append]
    -- behind the disposed decorations all are alive
    have halive : (⟨List.replicate count none ++ (Decoration.all palette h).map some⟩ :
        Terminal).isAlive ∘ (fun handle => count + handle) =
          (⟨(Decoration.all palette h).map some⟩ : Terminal).isAlive := by
      funext handle
      exact isAlive_behind_disposed count _ handle
    rw [List.filter_map, halive]
    rfl

theorem Shows.length_alive (hshows : o.Shows t shown?) (hrecords : t.Records log) :
    log.alive.length = if o.isLive then Category.all.length else 0 := by
  rw [hshows.alive_eq hrecords]
  unfold isLive
  cases o.live? <;> rfl

/-- What is shown is found in the log. -/
theorem Shows.displays {palette : Palette} {h : Highlights}
    (hshows : o.Shows t (some (palette, h))) (hrecords : t.Records log) :
    o.Displays log palette h := by
  have hlive : o.isLive = true := by
    rw [hshows.isLive_eq]
    rfl
  rcases Option.isSome_iff_exists.1 hlive with ⟨set, hset⟩
  rcases hshows.of_live hset with ⟨palette', h', heq, hslots⟩
  cases heq
  refine ⟨set, hset, ?_⟩
  intro c
  exact hrecords.kept _ _ (hslots c)

/-- A live set is shown in the colors that it was made for. -/
theorem Shows.palette_eq (hshows : o.Shows t shown?) {set : LiveSet} (hset : o.live? = some set) :
    ∃ h, shown? = some (set.palette, h) := by
  cases hshows with
  | nothing count => cases hset
  | highlights count palette h =>
    cases hset
    exact ⟨h, rfl⟩

/-- Where nothing is shown, all that was ever created is disposed. -/
theorem Shows.count_dispose (hshows : o.Shows t none) (hrecords : t.Records log) {handle : Nat}
    (hcreated : handle ∈ log.created) : log.count (.dispose handle) = 1 := by
  cases hshows with
  | nothing count =>
    rw [hrecords.numbered, List.mem_range, List.length_replicate] at hcreated
    rw [hrecords.disposed, List.getElem?_replicate, if_pos hcreated]
    rfl

end Alive

/-! ## Operations -/

/-- The log of an overlay's calls leads to a terminal that shows what the overlay was asked for. -/
structure IsLogged (o : Overlay) (log : PaintLog) (shown? : Option (Palette × Highlights)) :
    Prop where
  /-- No call is refused. -/
  accepted : ∃ t, Terminal.empty.performAll? log = some t ∧ o.Shows t shown?
  /-- There are never more decorations than categories. -/
  few : log.HasFewAlive

theorem isLogged_empty : empty.IsLogged [] none := by
  refine ⟨⟨Terminal.empty, rfl, .nothing 0⟩, ?_⟩
  intro before after heq
  rw [(List.append_eq_nil_iff.1 heq.symm).1]
  decide

section Operations

variable {o : Overlay} {log : PaintLog} {shown? : Option (Palette × Highlights)}

theorem IsLogged.length_alive (h : o.IsLogged log shown?) :
    log.alive.length = if o.isLive then Category.all.length else 0 := by
  rcases h.accepted with ⟨t, hcalls, hshows⟩
  exact hshows.length_alive (Terminal.records_empty.performAll? hcalls)

/-- Clearing creates nothing. -/
theorem created_clear (o : Overlay) : PaintLog.created o.clear.2 = [] := by
  unfold clear
  cases o.live? <;> rfl

theorem IsLogged.clear (h : o.IsLogged log shown?) :
    o.clear.1.IsLogged (log ++ o.clear.2) none := by
  rcases h.accepted with ⟨t, hcalls, hshows⟩
  rcases hshows.clear with ⟨t', hclear, hcleared⟩
  refine ⟨⟨t', ?_, hcleared⟩, ?_⟩
  · rw [Terminal.performAll?_append, hcalls]
    exact hclear
  · apply h.few.append
    rw [h.length_alive, created_clear]
    split <;> decide

/-- Before highlights are shown, the overlay is cleared if its colors are wrong; after that
decorations are created only if there are none. -/
theorem apply_calls (o : Overlay) (palette : Palette) (h : Highlights) :
    ∃ cleared later, (cleared = (o, []) ∨ cleared = o.clear) ∧
      (o.apply palette h).2 = cleared.2 ++ later ∧
      (PaintLog.created later).length =
        if cleared.1.isLive then 0 else Category.all.length := by
  cases hlive : o.live? with
  | none =>
    refine ⟨(o, []), (o.apply palette h).2, Or.inl rfl, rfl, ?_⟩
    unfold apply prepare isLive
    rw [hlive]
    rfl
  | some set =>
    by_cases hsame : set.palette = palette
    · refine ⟨(o, []), (o.apply palette h).2, Or.inl rfl, rfl, ?_⟩
      unfold apply prepare isLive
      simp only [hlive, hsame, if_true]
      rfl
    · refine ⟨o.clear, ?_, Or.inr rfl, ?_, ?_⟩
      · exact (o.clear.1.create palette).2.2 ++
          Category.all.map fun c =>
            .set ((o.clear.1.create palette).2.1.handles.get c) (h.get c)
      · unfold apply prepare
        simp only [hlive, hsame, if_false]
        exact List.append_assoc _ _ _
      · unfold clear isLive
        rw [hlive]
        rfl

theorem IsLogged.apply (h : o.IsLogged log shown?) (palette : Palette) (highlights : Highlights) :
    (o.apply palette highlights).1.IsLogged (log ++ (o.apply palette highlights).2)
      (some (palette, highlights)) := by
  rcases h.accepted with ⟨t, hcalls, hshows⟩
  rcases hshows.apply palette highlights with ⟨t', happly, happlied⟩
  refine ⟨⟨t', ?_, happlied⟩, ?_⟩
  · rw [Terminal.performAll?_append, hcalls]
    exact happly
  · rcases o.apply_calls palette highlights with ⟨cleared, later, hcleared, heq, hcreated⟩
    have hbefore : ∃ shown?, cleared.1.IsLogged (log ++ cleared.2) shown? := by
      rcases hcleared with rfl | rfl
      · refine ⟨shown?, ?_⟩
        rw [List.append_nil]
        exact h
      · exact ⟨none, h.clear⟩
    rcases hbefore with ⟨_, hbefore⟩
    rw [heq, ← List.append_assoc]
    apply hbefore.few.append
    rw [hbefore.length_alive, hcreated]
    split <;> decide

/-- The calls of an operation go on with the log. -/
theorem IsLogged.perform (h : o.IsLogged log shown?) (op : Operation) :
    ∃ shown?, (o.perform op).1.IsLogged (log ++ (o.perform op).2.1) shown? := by
  cases op with
  | apply palette highlights => exact ⟨_, h.apply palette highlights⟩
  | clear => exact ⟨_, h.clear⟩

/-- The calls of a run go on with the log. -/
theorem IsLogged.run (h : o.IsLogged log shown?) (ops : List Operation) :
    ∃ shown?, (o.run ops).1.IsLogged (log ++ (o.run ops).2) shown? := by
  induction ops generalizing o log shown? with
  | nil =>
    refine ⟨shown?, ?_⟩
    rw [show (o.run []).2 = [] from rfl, List.append_nil]
    exact h
  | cons op rest ih =>
    rcases h.perform op with ⟨_, hnext⟩
    rcases ih hnext with ⟨last?, hlast⟩
    refine ⟨last?, ?_⟩
    rw [List.append_assoc] at hlast
    exact hlast

theorem IsLogged.keeps (h : o.IsLogged log shown?) : o.Keeps log := by
  rcases h.accepted with ⟨t, hcalls, hshows⟩
  have hrecords : t.Records log := Terminal.records_empty.performAll? hcalls
  refine ⟨Terminal.isSound_of_performAll? hcalls, h.few, ?_, ?_⟩
  · intro hdead
    apply List.eq_nil_of_length_eq_zero
    rw [h.length_alive, hdead]
    rfl
  · intro set hset
    refine ⟨?_, ?_⟩
    · rw [hshows.alive_eq hrecords, hset]
      rfl
    · rcases hshows.palette_eq hset with ⟨highlights, rfl⟩
      rcases hshows.displays hrecords with ⟨set', hset', hkept⟩
      rw [hset] at hset'
      cases hset'
      intro c
      exact (hkept c).1

theorem IsLogged.displays {palette : Palette} {highlights : Highlights}
    (h : o.IsLogged log (some (palette, highlights))) : o.Displays log palette highlights := by
  rcases h.accepted with ⟨t, hcalls, hshows⟩
  exact hshows.displays (Terminal.records_empty.performAll? hcalls)

/-- An overlay is live when the log leaves something alive. -/
theorem Keeps.isLive_eq (h : o.Keeps log) : o.isLive = decide (log.alive ≠ []) := by
  cases hlive : o.live? with
  | none =>
    have hdead : o.isLive = false := by
      unfold isLive
      rw [hlive]
      rfl
    rw [hdead, h.nothing hdead]
    rfl
  | some set =>
    unfold isLive
    rw [hlive, (h.oneEach set hlive).1]
    rfl

end Operations

/-- Every run from the start is in the log of its calls. -/
theorem isLogged_run (ops : List Operation) :
    ∃ shown?, (empty.run ops).1.IsLogged (empty.run ops).2 shown? :=
  isLogged_empty.run ops

/-- After highlights were applied, they are displayed. -/
theorem displays_run_apply (ops : List Operation) (palette : Palette) (h : Highlights) :
    (empty.run (ops ++ [.apply palette h])).1.Displays
      (empty.run (ops ++ [.apply palette h])).2 palette h := by
  rcases isLogged_run ops with ⟨_, hlogged⟩
  rw [run_concat]
  exact (hlogged.apply palette h).displays

/-- After clearing nothing is alive. -/
theorem alive_run_clear (ops : List Operation) :
    PaintLog.alive (empty.run (ops ++ [.clear])).2 = [] := by
  rcases isLogged_run ops with ⟨_, hlogged⟩
  rw [run_concat]
  rcases hlogged.clear.accepted with ⟨t, hcalls, hshows⟩
  refine hlogged.clear.keeps.nothing ?_
  rw [hshows.isLive_eq]
  rfl

end Overlay

/-! ## Sessions -/

namespace Session

/-- All that the host of a session is asked for, from its start to its end. -/
def callsToEnd (config : Config) (ops : List Operation) : PaintLog :=
  ((start config).run ops).2.calls ++ ((start config).run ops).1.finish.calls

/-- A terminal refuses no call of a session, and shows nothing when the session has ended. -/
theorem performAll?_callsToEnd (config : Config) (ops : List Operation) :
    ∃ o : Overlay, ∃ t,
      Terminal.empty.performAll? (callsToEnd config ops) = some t ∧ o.Shows t none := by
  rcases (isCurrent_start config).run ops with ⟨t, hcalls, hcurrent⟩
  rcases hcurrent.toIsReady.clear with ⟨t', hclear, -, hshows⟩
  refine ⟨_, t', ?_, hshows⟩
  unfold callsToEnd
  rw [Terminal.performAll?_append, hcalls]
  exact hclear

theorem isSound_callsToEnd (config : Config) (ops : List Operation) :
    (callsToEnd config ops).IsSound := by
  rcases performAll?_callsToEnd config ops with ⟨o, t, hcalls, -⟩
  exact Terminal.isSound_of_performAll? hcalls

/-- A session leaves no decoration behind. -/
theorem count_dispose_callsToEnd (config : Config) (ops : List Operation) :
    ∀ handle ∈ (callsToEnd config ops).created,
      (callsToEnd config ops).count (.dispose handle) = 1 := by
  rcases performAll?_callsToEnd config ops with ⟨o, t, hcalls, hshows⟩
  intro handle hcreated
  exact hshows.count_dispose (Terminal.records_empty.performAll? hcalls) hcreated

end Session

/-! ## From creation to disposal -/

/-- Whatever an overlay is asked for, its decorations are created, used and disposed in order: the
log agrees with the overlay after each operation, highlights that were applied are displayed, and
clearing leaves nothing alive and tells whether anything was. So a session that is shut down, any
number of times, and ends has disposed all that it ever created, each decoration once. -/
theorem decoration_lifecycle :
    (∀ ops, (Overlay.empty.run ops).1.Keeps (Overlay.empty.run ops).2) ∧
      (∀ ops palette h, (Overlay.empty.run (ops ++ [.apply palette h])).1.Displays
        (Overlay.empty.run (ops ++ [.apply palette h])).2 palette h) ∧
      (∀ ops, PaintLog.alive (Overlay.empty.run (ops ++ [.clear])).2 = [] ∧
        ((Overlay.empty.run ops).1.perform .clear).2.2 =
          .cleared (decide (PaintLog.alive (Overlay.empty.run ops).2 ≠ []))) ∧
      ∀ config ops n,
        (Session.callsToEnd config (ops ++ List.replicate n .shutdown)).IsSound ∧
          ∀ handle ∈ (Session.callsToEnd config (ops ++ List.replicate n .shutdown)).created,
            (Session.callsToEnd config (ops ++ List.replicate n .shutdown)).count
              (.dispose handle) = 1 := by
  refine ⟨?_, Overlay.displays_run_apply, ?_, ?_⟩
  · intro ops
    rcases Overlay.isLogged_run ops with ⟨_, hlogged⟩
    exact hlogged.keeps
  · intro ops
    refine ⟨Overlay.alive_run_clear ops, ?_⟩
    rcases Overlay.isLogged_run ops with ⟨_, hlogged⟩
    exact congrArg Overlay.Outcome.cleared hlogged.keeps.isLive_eq
  · intro config ops n
    exact ⟨Session.isSound_callsToEnd config _, Session.count_dispose_callsToEnd config _⟩

end ClassHighlight
