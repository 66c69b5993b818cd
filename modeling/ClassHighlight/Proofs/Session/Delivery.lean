import ClassHighlight.Proofs.Session.Broadcast
import ClassHighlight.Proofs.Session.EventBus

/-!
# Handlers receive events in order

Whatever is done with a bus and its handlers, each handler receives events that were emitted after
its subscription, in their order, each at most once, and it misses one only after enough others were
emitted. All this is said of what has happened; how the channel stands is known to `Agrees`, which
each operation preserves.
-/

namespace ClassHighlight

namespace Broadcast

open Channel

variable {c : Channel}

/-! ## What has happened to a handler -/

/-- The event that was emitted, if one was. -/
def Occurrence.emitted? : Occurrence → Option Event
  | .emitted e => some e
  | _ => none

/-- What a handler has found, if it has read. -/
def Occurrence.reading? (handler : Nat) : Occurrence → Option Reading
  | .read other reading => if other = handler then some reading else none
  | _ => none

/-- The event that was found, if one was. -/
def Reading.event? : Reading → Option Event
  | .event e => some e
  | _ => none

/-- What has happened since the subscription of a handler. -/
def sinceSubscription : (handler : Nat) → List Occurrence → List Occurrence
  | _, [] => []
  | 0, .subscribed :: rest => rest
  | handler + 1, .subscribed :: rest => sinceSubscription handler rest
  | handler, _ :: rest => sinceSubscription handler rest

/-- The events that were emitted after the subscription of a handler. -/
def sentTo (handler : Nat) (trace : List Occurrence) : List Event :=
  (sinceSubscription handler trace).filterMap Occurrence.emitted?

/-- All that a handler has found. -/
def readings (handler : Nat) (trace : List Occurrence) : List Reading :=
  trace.filterMap (Occurrence.reading? handler)

/-- The events that a handler has received. -/
def received (handler : Nat) (trace : List Occurrence) : List Event :=
  (readings handler trace).filterMap Reading.event?

section Trace

variable {handler : Nat} {trace : List Occurrence}

/-- Only subscriptions are counted until the handler's own. -/
theorem sinceSubscription_cons_of_ne {first : Occurrence} (h : first ≠ .subscribed)
    (rest : List Occurrence) :
    sinceSubscription handler (first :: rest) = sinceSubscription handler rest := by
  cases first with
  | subscribed => exact absurd rfl h
  | _ => cases handler <;> rfl

/-- What happens next has happened since each earlier subscription. -/
theorem sinceSubscription_concat (h : handler < trace.count .subscribed) (o : Occurrence) :
    sinceSubscription handler (trace ++ [o]) = sinceSubscription handler trace ++ [o] := by
  induction trace generalizing handler with
  | nil => cases h
  | cons first rest ih =>
    by_cases hfirst : first = .subscribed
    · subst hfirst
      rw [List.count_cons_self] at h
      cases handler with
      | zero => rfl
      | succ handler => exact ih (by omega)
    · rw [List.count_cons_of_ne hfirst] at h
      rw [List.cons_append, sinceSubscription_cons_of_ne hfirst,
        sinceSubscription_cons_of_ne hfirst, ih h]

/-- Nothing has happened since a subscription when it happens. -/
theorem sinceSubscription_concat_subscribed (h : trace.count .subscribed = handler) :
    sinceSubscription handler (trace ++ [.subscribed]) = [] := by
  induction trace generalizing handler with
  | nil =>
    subst h
    rfl
  | cons first rest ih =>
    by_cases hfirst : first = .subscribed
    · subst hfirst
      rw [List.count_cons_self] at h
      subst h
      exact ih rfl
    · rw [List.count_cons_of_ne hfirst] at h
      rw [List.cons_append, sinceSubscription_cons_of_ne hfirst]
      exact ih h

theorem sentTo_concat (h : handler < trace.count .subscribed) (o : Occurrence) :
    sentTo handler (trace ++ [o]) = sentTo handler trace ++ o.emitted?.toList := by
  rw [sentTo, sinceSubscription_concat h, List.filterMap_append]
  cases hemitted : o.emitted? with
  | none => rw [List.filterMap_cons_none hemitted]; rfl
  | some e => rw [List.filterMap_cons_some hemitted]; rfl

theorem readings_concat (handler : Nat) (trace : List Occurrence) (o : Occurrence) :
    readings handler (trace ++ [o]) = readings handler trace ++ (o.reading? handler).toList := by
  rw [readings, List.filterMap_append]
  cases hreading : o.reading? handler with
  | none => rw [List.filterMap_cons_none hreading]; rfl
  | some reading => rw [List.filterMap_cons_some hreading]; rfl

theorem received_concat_of_none {o : Occurrence} (h : o.reading? handler = none) :
    received handler (trace ++ [o]) = received handler trace := by
  rw [received, readings_concat, h, Option.toList_none, List.append_nil]
  rfl

theorem received_concat_read (handler : Nat) (trace : List Occurrence) (reading : Reading) :
    received handler (trace ++ [.read handler reading]) =
      received handler trace ++ reading.event?.toList := by
  have hreading : (Occurrence.read handler reading).reading? handler = some reading :=
    if_pos rfl
  rw [received, readings_concat, hreading, Option.toList_some, List.filterMap_append]
  cases hevent : reading.event? with
  | none => rw [List.filterMap_cons_none hevent]; rfl
  | some e => rw [List.filterMap_cons_some hevent]; rfl

/-- Where something stands in a longer trace, it is the last, or it stood there before. -/
theorem concat_eq_append_cons {o x : Occurrence} {before after : List Occurrence}
    (h : trace ++ [o] = before ++ x :: after) :
    (before = trace ∧ x = o) ∨ ∃ after', trace = before ++ x :: after' := by
  rcases List.eq_nil_or_concat' after with rfl | ⟨after', last, rfl⟩
  · obtain ⟨hbefore, hlast⟩ := List.append_inj' h rfl
    cases hlast
    exact Or.inl ⟨hbefore.symm, rfl⟩
  · have hassoc : before ++ x :: (after' ++ [last]) = (before ++ x :: after') ++ [last] := by simp
    rw [hassoc] at h
    exact Or.inr ⟨after', (List.append_inj' h rfl).1⟩

end Trace

/-- When a handler receives an event, this one was emitted before, and those that were skipped up to
it were followed by enough others. When a handler finds the end, the bus was dropped before, and the
last events were all received. -/
structure IsDelivered (trace : List Occurrence) (handler : Nat) (places : List Nat) : Prop where
  /-- What holds when an event is received. -/
  timely : ∀ before after e, trace = before ++ .read handler (.event e) :: after →
    ∃ j, places[(received handler before).length]? = some j ∧ j < (sentTo handler before).length ∧
      ∀ i < j, i ∉ places → i + EventBus.capacity < (sentTo handler before).length
  /-- What holds when the end is found. -/
  complete : ∀ before after, trace = before ++ .read handler .closed :: after →
    .dropped ∈ before ∧ ∀ j < (sentTo handler before).length,
      (sentTo handler before).length ≤ j + EventBus.capacity →
        j ∈ places.take (received handler before).length

section Delivered

variable {handler : Nat} {trace : List Occurrence} {places : List Nat}

/-- A handler that has not read has nothing to show. -/
theorem isDelivered_of_unread (h : readings handler trace = []) (places : List Nat) :
    IsDelivered trace handler places := by
  have hnone (reading : Reading) (before after : List Occurrence) :
      trace ≠ before ++ .read handler reading :: after := by
    rintro rfl
    have hmem : reading ∈ readings handler (before ++ .read handler reading :: after) := by
      refine List.mem_filterMap.mpr ⟨.read handler reading, ?_, if_pos rfl⟩
      exact List.mem_append_right _ List.mem_cons_self
    rw [h] at hmem
    cases hmem
  constructor
  · intro before after e heq
    exact absurd heq (hnone _ _ _)
  · intro before after heq
    exact absurd heq (hnone _ _ _)

/-- What was delivered stays so, whatever happens next and whatever is received later. -/
theorem IsDelivered.concat (h : IsDelivered trace handler places) (o : Occurrence)
    (later : List Nat)
    (hevent : ∀ e, o = .read handler (.event e) →
      ∃ j, (places ++ later)[(received handler trace).length]? = some j ∧
        j < (sentTo handler trace).length ∧
        ∀ i < j, i ∉ places → i + EventBus.capacity < (sentTo handler trace).length)
    (hclosed : o = .read handler .closed → .dropped ∈ trace ∧
      ∀ j < (sentTo handler trace).length,
        (sentTo handler trace).length ≤ j + EventBus.capacity →
          j ∈ (places ++ later).take (received handler trace).length) :
    IsDelivered (trace ++ [o]) handler (places ++ later) := by
  constructor
  · intro before after e heq
    rcases concat_eq_append_cons heq with ⟨rfl, hlast⟩ | ⟨after', hold⟩
    · obtain ⟨j, hj, hlt, hskipped⟩ := hevent e hlast.symm
      refine ⟨j, hj, hlt, fun i hi hnot => hskipped i hi ?_⟩
      exact fun hmem => hnot (List.mem_append_left _ hmem)
    · obtain ⟨j, hj, hlt, hskipped⟩ := h.timely before after' e hold
      have hin : (received handler before).length < places.length :=
        (List.getElem?_eq_some_iff.mp hj).1
      refine ⟨j, ?_, hlt, fun i hi hnot => hskipped i hi ?_⟩
      · rw [List.getElem?_append_left hin]
        exact hj
      · exact fun hmem => hnot (List.mem_append_left _ hmem)
  · intro before after heq
    rcases concat_eq_append_cons heq with ⟨rfl, hlast⟩ | ⟨after', hold⟩
    · exact hclosed hlast.symm
    · obtain ⟨hdropped, hall⟩ := h.complete before after' hold
      refine ⟨hdropped, fun j hj hrecent => ?_⟩
      rw [List.take_append]
      exact List.mem_append_left _ (hall j hj hrecent)

/-- What a handler does not read delivers nothing to it. -/
theorem IsDelivered.concat_of_none (h : IsDelivered trace handler places) {o : Occurrence}
    (hnone : o.reading? handler = none) : IsDelivered (trace ++ [o]) handler places := by
  have hne (reading : Reading) : o ≠ .read handler reading := by
    rintro rfl
    rw [Occurrence.reading?, if_pos rfl] at hnone
    cases hnone
  have hconcat := h.concat o [] (fun e heq => absurd heq (hne _))
    (fun heq => absurd heq (hne _))
  rw [List.append_nil] at hconcat
  exact hconcat

end Delivered

/-! ## What a handler has heard -/

/-- A handler follows, and what it has received was delivered as it should. -/
def Hears (a : Account) (trace : List Occurrence) (handler : Nat) : Prop :=
  ∃ k places, Follows a handler (sentTo handler trace) (received handler trace) k places ∧
    IsDelivered trace handler places

section Hears

variable {a a' : Account} {trace : List Occurrence} {handler : Nat}

/-- Nothing was sent to a new handler yet. -/
theorem hears_subscribed (hcount : trace.count .subscribed = handler)
    (hunread : readings handler trace = []) (hbehind : a.behind[handler]? = some 0)
    (hbounded : a.held.length ≤ EventBus.capacity) : Hears a (trace ++ [.subscribed]) handler := by
  have hstill : readings handler (trace ++ [.subscribed]) = [] := by
    rw [readings_concat, hunread]
    rfl
  have hsent : sentTo handler (trace ++ [.subscribed]) = [] := by
    rw [sentTo, sinceSubscription_concat_subscribed hcount]
    rfl
  have hreceived : received handler (trace ++ [.subscribed]) = [] := by
    rw [received, hstill]
    rfl
  refine ⟨0, [], ?_, isDelivered_of_unread hstill _⟩
  rw [hsent, hreceived]
  exact follows_nil hbehind hbounded

/-- What is no concern of a handler leaves it as it is. -/
theorem Hears.concat_of_none (h : Hears a trace handler) {o : Occurrence}
    (hcount : handler < trace.count .subscribed) (hreading : o.reading? handler = none)
    (hemitted : o.emitted? = none) (hheld : a'.held = a.held)
    (hbehind : a'.behind[handler]? = a.behind[handler]?) : Hears a' (trace ++ [o]) handler := by
  obtain ⟨k, places, hfollows, hdelivered⟩ := h
  refine ⟨k, places, ?_, hdelivered.concat_of_none hreading⟩
  rw [sentTo_concat hcount, hemitted, Option.toList_none, List.append_nil,
    received_concat_of_none hreading]
  exact hfollows.congr hheld hbehind

/-- An event that is emitted is sent to all handlers. -/
theorem Hears.emit (h : Hears a trace handler) (hcount : handler < trace.count .subscribed)
    (hcapacity : a.capacity = EventBus.capacity) (e : Event) :
    Hears { a with
        held := (a.held ++ [e]).drop ((a.held ++ [e]).length - a.capacity)
        behind := a.behind.map (· + 1) }
      (trace ++ [.emitted e]) handler := by
  obtain ⟨k, places, hfollows, hdelivered⟩ := h
  refine ⟨k + 1, places, ?_, hdelivered.concat_of_none rfl⟩
  rw [sentTo_concat hcount, received_concat_of_none rfl]
  exact hfollows.send hcapacity e

/-- A handler that reads receives what `Reads` says, and it finds the end only if there is one. -/
theorem Hears.read (h : Hears a trace handler) (hcount : handler < trace.count .subscribed)
    {reading : Reading} (hreads : Reads a handler reading a')
    (hdropped : a.isOpen = false → .dropped ∈ trace) :
    Hears a' (trace ++ [.read handler reading]) handler := by
  obtain ⟨k, places, hfollows, hdelivered⟩ := h
  have hlength : (received handler trace).length = places.length := by
    have hfound := congrArg List.length hfollows.found
    rw [List.length_map, List.length_map] at hfound
    exact hfound
  have hsent : sentTo handler (trace ++ [.read handler reading]) = sentTo handler trace := by
    rw [sentTo_concat hcount]
    exact List.append_nil _
  rcases hfollows.read hreads with
    ⟨e, j, k', rfl, hj, hskipped, hnext⟩ | ⟨k', hnone, hnext, hclosed⟩
  · refine ⟨k', places ++ [j], ?_, hdelivered.concat _ _ ?_ nofun⟩
    · rw [hsent, received_concat_read]
      exact hnext
    · intro e' _
      refine ⟨j, ?_, hj, hskipped⟩
      rw [hlength, List.getElem?_concat_length]
  · have hsame : received handler (trace ++ [.read handler reading]) = received handler trace := by
      rw [received_concat_read]
      cases reading with
      | event e => exact absurd rfl (hnone e)
      | _ => exact List.append_nil _
    refine ⟨k', places, ?_, ?_⟩
    · rw [hsent, hsame]
      exact hnext
    · have hconcat := hdelivered.concat (.read handler reading) [] ?_ ?_
      · rw [List.append_nil] at hconcat
        exact hconcat
      · intro e heq
        cases heq
        exact absurd rfl (hnone e)
      · intro heq
        cases heq
        obtain ⟨hended, hall⟩ := hclosed rfl
        refine ⟨hdropped hended, fun j hj hrecent => ?_⟩
        rw [List.append_nil, hlength, List.take_length]
        exact hall j hj hrecent

end Hears

/-- A reading changes nothing else than how far its receiver is behind. -/
theorem Reads.frame {a a' : Account} {receiver : Nat} {reading : Reading}
    (h : Reads a receiver reading a') :
    ∃ behind, a' = { a with behind } ∧ behind.length = a.behind.length ∧
      ∀ other ≠ receiver, behind[other]? = a.behind[other]? := by
  have hset (n : Nat) : ∃ behind, { a with behind := a.behind.set receiver n } =
      { a with behind } ∧ behind.length = a.behind.length ∧
      ∀ other ≠ receiver, behind[other]? = a.behind[other]? :=
    ⟨_, rfl, List.length_set, fun other hne => List.getElem?_set_ne (Ne.symm hne)⟩
  cases h with
  | found _ _ => exact hset _
  | finished _ => exact ⟨a.behind, rfl, rfl, fun _ _ => rfl⟩
  | interrupted => exact ⟨a.behind, rfl, rfl, fun _ _ => rfl⟩
  | lagged _ _ => exact hset _

/-! ## Runs -/

/-- How a bus stands after what has happened. -/
structure Agrees (docs : c.Documented) (b : Broadcast c) (trace : List Occurrence) : Prop where
  /-- Its channel keeps as many events as it was created for. -/
  capacity : (docs.account b.channel).capacity = EventBus.capacity
  /-- Its channel is closed when it is dropped. -/
  isOpen_eq : (docs.account b.channel).isOpen = !b.isGone
  /-- The handlers have the receivers in order. -/
  handlers : b.handlers = List.range (docs.account b.channel).behind.length
  /-- There are as many handlers as were added. -/
  count : trace.count .subscribed = b.handlers.length
  /-- It is gone only when it was dropped. -/
  gone : b.isGone = true → .dropped ∈ trace
  /-- Only its handlers have read. -/
  unread : ∀ handler, b.handlers.length ≤ handler → readings handler trace = []
  /-- Each of them has heard what it should. -/
  hears : ∀ handler < b.handlers.length, Hears (docs.account b.channel) trace handler

section Run

variable {docs : c.Documented} {b : Broadcast c} {trace : List Occurrence}

theorem agrees_start (docs : c.Documented) : Agrees docs (start c) [] := by
  have hcreated : docs.account (start c).channel = ⟨EventBus.capacity, [], [], true⟩ :=
    docs.created
  refine ⟨?_, ?_, ?_, rfl, nofun, fun _ _ => rfl, nofun⟩
  · rw [hcreated]
  · rw [hcreated]
    rfl
  · rw [hcreated]
    rfl

theorem Agrees.length_behind (h : Agrees docs b trace) :
    (docs.account b.channel).behind.length = b.handlers.length := by
  rw [h.handlers, List.length_range]

/-- What adds no handler keeps the readings of those that are not there. -/
theorem Agrees.unread_concat (h : Agrees docs b trace) {o : Occurrence}
    (ho : ∀ handler, b.handlers.length ≤ handler → o.reading? handler = none) :
    ∀ handler, b.handlers.length ≤ handler → readings handler (trace ++ [o]) = [] := by
  intro handler hle
  rw [readings_concat, h.unread handler hle, ho handler hle]
  rfl

/-- Something that no handler notices. -/
theorem Agrees.concat_of_quiet (h : Agrees docs b trace) {o : Occurrence} {next : Broadcast c}
    (hreading : ∀ handler, o.reading? handler = none) (hemitted : o.emitted? = none)
    (hsubscribed : o ≠ .subscribed)
    (haccount : ∃ isOpen, docs.account next.channel =
      { docs.account b.channel with isOpen } ∧ isOpen = !next.isGone)
    (hhandlers : next.handlers = b.handlers)
    (hgone : next.isGone = true → .dropped ∈ trace ++ [o]) :
    Agrees docs next (trace ++ [o]) := by
  obtain ⟨isOpen, haccount, hopen⟩ := haccount
  have hcount : (trace ++ [o]).count .subscribed = b.handlers.length := by
    rw [List.count_append, h.count, List.count_singleton, if_neg (by simpa using hsubscribed)]
    rfl
  refine ⟨?_, ?_, ?_, ?_, hgone, ?_, ?_⟩
  · rw [haccount]
    exact h.capacity
  · rw [haccount]
    exact hopen
  · rw [hhandlers, haccount]
    exact h.handlers
  · rw [hhandlers]
    exact hcount
  · rw [hhandlers]
    exact h.unread_concat fun handler _ => hreading handler
  · intro handler hlt
    rw [hhandlers] at hlt
    refine (h.hears handler hlt).concat_of_none ?_ (hreading handler) hemitted ?_ ?_
    · rw [h.count]
      exact hlt
    · rw [haccount]
    · rw [haccount]

/-- A new handler hears what is emitted from then on. -/
theorem Agrees.subscribe (h : Agrees docs b trace) (hopen : b.isGone = false) :
    Agrees docs b.subscribe (trace ++ [.subscribed]) := by
  have haccountOpen : (docs.account b.channel).isOpen = true := by
    rw [h.isOpen_eq, hopen]
    rfl
  obtain ⟨haccount, hreceiver⟩ := docs.subscribed b.channel haccountOpen
  have hchannel : b.subscribe.channel = (c.subscribe b.channel).1 := rfl
  have hhandlers : b.subscribe.handlers = b.handlers ++ [(c.subscribe b.channel).2] := rfl
  have hlength : b.subscribe.handlers.length = b.handlers.length + 1 := by
    rw [hhandlers, List.length_append, List.length_singleton]
  have hcount : (trace ++ [Occurrence.subscribed]).count .subscribed = b.handlers.length + 1 := by
    rw [List.count_append, h.count]
    rfl
  rw [← hchannel] at haccount
  refine ⟨?_, ?_, ?_, ?_, ?_, ?_, ?_⟩
  · rw [haccount]
    exact h.capacity
  · rw [haccount]
    exact h.isOpen_eq
  · rw [hhandlers, haccount, hreceiver, List.length_append, List.length_singleton,
      List.range_succ, h.handlers]
  · rw [hcount, hlength]
  · intro hgone
    exact absurd (hopen.symm.trans hgone) (by decide)
  · intro handler hle
    exact h.unread_concat (fun _ _ => rfl) handler (by omega)
  · intro handler hlt
    by_cases hold : handler < b.handlers.length
    · refine (h.hears handler hold).concat_of_none (by rw [h.count]; exact hold) rfl rfl ?_ ?_
      · rw [haccount]
      · rw [haccount]
        refine List.getElem?_append_left ?_
        rw [h.length_behind]
        exact hold
    · obtain rfl : handler = b.handlers.length := by omega
      refine hears_subscribed h.count (h.unread _ (Nat.le_refl _)) ?_ ?_
      · rw [haccount, ← h.length_behind]
        exact List.getElem?_concat_length
      · have hbounded := docs.bounded b.subscribe.channel
        rw [haccount] at hbounded ⊢
        rw [← h.capacity]
        exact hbounded

/-- An event that is emitted goes to all handlers, be there any or not. -/
theorem Agrees.emit (h : Agrees docs b trace) (hopen : b.isGone = false) (e : Event) :
    Agrees docs (b.emit e) (trace ++ [.emitted e]) := by
  have haccountOpen : (docs.account b.channel).isOpen = true := by
    rw [h.isOpen_eq, hopen]
    rfl
  have hchannel : (b.emit e).channel = (c.send b.channel e).1 := rfl
  have hcount : (trace ++ [Occurrence.emitted e]).count .subscribed = b.handlers.length := by
    rw [List.count_append, h.count]
    rfl
  have hgone : (b.emit e).isGone = true → .dropped ∈ trace ++ [.emitted e] := fun hgone =>
    absurd (hopen.symm.trans hgone) (by decide)
  have hunread := h.unread_concat (o := .emitted e) (fun _ _ => rfl)
  by_cases hnobody : (docs.account b.channel).behind = []
  · obtain ⟨held, haccount⟩ := docs.unheard b.channel e haccountOpen hnobody
    rw [← hchannel] at haccount
    have hnone : b.handlers = [] := by
      rw [h.handlers, hnobody]
      rfl
    refine ⟨?_, ?_, ?_, hcount, hgone, hunread, ?_⟩
    · rw [haccount]
      exact h.capacity
    · rw [haccount]
      exact h.isOpen_eq
    · rw [haccount]
      exact h.handlers
    · intro handler hlt
      have hlt' : handler < b.handlers.length := hlt
      rw [hnone] at hlt'
      cases hlt'
  · have haccount := docs.sent b.channel e haccountOpen hnobody
    rw [← hchannel] at haccount
    refine ⟨?_, ?_, ?_, hcount, hgone, hunread, ?_⟩
    · rw [haccount]
      exact h.capacity
    · rw [haccount]
      exact h.isOpen_eq
    · rw [haccount, List.length_map]
      exact h.handlers
    · intro handler hlt
      rw [haccount]
      exact (h.hears handler hlt).emit (by rw [h.count]; exact hlt) h.capacity e

/-- The receiver of a handler has the handler's number. -/
theorem Agrees.handlers_eq (h : Agrees docs b trace) {handler : Nat}
    (hlt : handler < b.handlers.length) : b.handlers[handler]? = some handler := by
  rw [← h.length_behind] at hlt
  rw [h.handlers, List.getElem?_range hlt]

/-- What a handler reads is what `Reads` says, and it is not interrupted after two rounds. -/
theorem Agrees.reads (h : Agrees docs b trace) {handler : Nat} (hlt : handler < b.handlers.length)
    (rounds : Nat) :
    Reads (docs.account b.channel) handler (read handler rounds b.channel).2
        (docs.account (read handler rounds b.channel).1) ∧
      (2 ≤ rounds → (read handler rounds b.channel).2 ≠ .interrupted) := by
  obtain ⟨k, places, hfollows, -⟩ := h.hears handler hlt
  exact reads_read docs hfollows.behind (fun hk => hfollows.held_ne_nil hk) rounds

/-- A handler that reads goes on, and the others do not notice it. -/
theorem Agrees.next (h : Agrees docs b trace) {handler : Nat} (hlt : handler < b.handlers.length)
    (rounds : Nat) :
    Agrees docs { b with channel := (read handler rounds b.channel).1 }
      (trace ++ [.read handler (read handler rounds b.channel).2]) := by
  obtain ⟨hreads, -⟩ := h.reads hlt rounds
  generalize hread : read handler rounds b.channel = result at hreads
  obtain ⟨channel, reading⟩ := result
  obtain ⟨behind, haccount, hlength, hothers⟩ := hreads.frame
  have hcount : (trace ++ [Occurrence.read handler reading]).count .subscribed =
      b.handlers.length := by
    rw [List.count_append, h.count]
    rfl
  refine ⟨?_, ?_, ?_, hcount, fun hgone => List.mem_append_left _ (h.gone hgone), ?_, ?_⟩
  · rw [haccount]
    exact h.capacity
  · rw [haccount]
    exact h.isOpen_eq
  · rw [haccount, hlength]
    exact h.handlers
  · refine h.unread_concat fun other hle => if_neg ?_
    rintro rfl
    exact absurd hlt (by omega)
  · intro other hother
    by_cases hsame : other = handler
    · subst hsame
      refine (h.hears other hlt).read (by rw [h.count]; exact hlt) hreads fun hclosed => h.gone ?_
      rw [h.isOpen_eq] at hclosed
      simpa using hclosed
    · have hreading : (Occurrence.read handler reading).reading? other = none :=
        if_neg (Ne.symm hsame)
      refine (h.hears other hother).concat_of_none (by rw [h.count]; exact hother) hreading rfl
        ?_ ?_
      · rw [haccount]
      · rw [haccount]
        exact hothers other hsame

/-- Each operation keeps a bus in agreement with what has happened. -/
theorem Agrees.perform (h : Agrees docs b trace) (op : Operation) :
    Agrees docs (b.perform op).1 (trace ++ [(b.perform op).2]) := by
  have hnothing : Agrees docs b (trace ++ [.nothing]) :=
    h.concat_of_quiet (fun _ => rfl) rfl nofun ⟨_, rfl, h.isOpen_eq⟩ rfl
      fun hgone => List.mem_append_left _ (h.gone hgone)
  unfold Broadcast.perform
  cases op with
  | subscribe =>
    cases hgone : b.isGone with
    | true => exact hnothing
    | false => exact h.subscribe hgone
  | emit e =>
    cases hgone : b.isGone with
    | true => exact hnothing
    | false => exact h.emit hgone e
  | next handler rounds =>
    by_cases hlt : handler < b.handlers.length
    · simp only [h.handlers_eq hlt]
      exact h.next hlt rounds
    · simp only [List.getElem?_eq_none (Nat.le_of_not_lt hlt)]
      exact hnothing
  | drop =>
    cases hgone : b.isGone with
    | true => exact hnothing
    | false =>
      exact h.concat_of_quiet (fun _ => rfl) rfl nofun ⟨false, docs.ended b.channel, rfl⟩ rfl
        fun _ => List.mem_append_right _ List.mem_cons_self

/-- A run keeps a bus in agreement with what has happened. -/
theorem Agrees.run (h : Agrees docs b trace) (ops : List Operation) :
    Agrees docs (b.run ops).1 (trace ++ (b.run ops).2) := by
  induction ops generalizing b trace with
  | nil =>
    rw [Broadcast.run, List.append_nil]
    exact h
  | cons op rest ih =>
    have hrest := ih (h.perform op)
    rw [List.append_assoc] at hrest
    exact hrest

theorem run_append (b : Broadcast c) (first later : List Operation) :
    b.run (first ++ later) =
      (((b.run first).1.run later).1, (b.run first).2 ++ ((b.run first).1.run later).2) := by
  induction first generalizing b with
  | nil => rfl
  | cons op rest ih =>
    show (((b.perform op).1.run (rest ++ later)).1,
      (b.perform op).2 :: ((b.perform op).1.run (rest ++ later)).2) = _
    rw [ih]
    rfl

end Run

/-! ## Reading again and again -/

section ReadAgain

variable {docs : c.Documented} {b : Broadcast c} {trace : List Occurrence} {handler rounds k : Nat}

theorem run_replicate_next (hhandler : b.handlers[handler]? = some handler) (m : Nat) :
    (b.run (List.replicate (m + 1) (.next handler rounds))).2 =
      .read handler (read handler rounds b.channel).2 ::
        (run { b with channel := (read handler rounds b.channel).1 }
          (List.replicate m (.next handler rounds))).2 := by
  have hperform : b.perform (.next handler rounds) =
      ({ b with channel := (read handler rounds b.channel).1 },
        .read handler (read handler rounds b.channel).2) := by
    simp only [Broadcast.perform, hhandler]
  rw [List.replicate_succ, Broadcast.run, hperform]

/-- A handler that is not interrupted reads all that is kept for it, one after the other, and then
waits or finds the end. -/
theorem Agrees.readings_replicate (h : Agrees docs b trace) (hlt : handler < b.handlers.length)
    (hrounds : 2 ≤ rounds) (hbehind : (docs.account b.channel).behind[handler]? = some k)
    (m : Nat) :
    readings handler (b.run (List.replicate m (.next handler rounds))).2 =
      (((docs.account b.channel).held.rtake k).map Reading.event).take m ++
        List.replicate (m - ((docs.account b.channel).held.rtake k).length)
          (if b.isGone then .closed else .pending) := by
  induction m generalizing b trace k with
  | zero =>
    rw [Nat.zero_sub]
    rfl
  | succ m ih =>
    have hnext := h.next hlt rounds
    obtain ⟨hreads, hkeeps⟩ := h.reads hlt rounds
    obtain ⟨k', hbehind', hcases⟩ := hreads.takes_first (hkeeps hrounds) hbehind
    have hrest := ih hnext hlt hbehind'
    have hreading : (Occurrence.read handler (read handler rounds b.channel).2).reading? handler =
        some (read handler rounds b.channel).2 := if_pos rfl
    rw [run_replicate_next (h.handlers_eq hlt), readings, List.filterMap_cons_some hreading,
      ← readings, hrest]
    rcases hcases with ⟨e, hevent, hwaiting⟩ | ⟨hend, hnone, hnone'⟩
    · rw [hevent, hwaiting, List.map_cons, List.take_succ_cons, List.length_cons,
        Nat.succ_sub_succ]
      rfl
    · rw [hend, hnone, hnone', h.isOpen_eq, List.map_nil, List.take_nil, List.take_nil,
        List.length_nil, Nat.sub_zero, Nat.sub_zero, List.replicate_succ]
      cases b.isGone <;> rfl

end ReadAgain

/-- Whatever is done, a handler has received events that were emitted after its subscription, each
at most once and in their order. It has missed only events that at least as many others as are kept
were emitted after, before it read again; and it finds the end only when the bus was dropped and all
events that are kept were delivered. If it goes on to read without interruption, it receives the
last events after the one that it received last, as many as are kept, and then it waits or finds the
end. -/
theorem run_delivers (docs : c.Documented) (ops : List Operation) {handler : Nat}
    (hhandler : handler < ((start c).run ops).2.count .subscribed) :
    let trace := ((start c).run ops).2
    let sent := sentTo handler trace
    ∃ places : List Nat,
      (received handler trace).map some = places.map (fun j => sent[j]?) ∧
      places.Pairwise (· < ·) ∧
      (received handler trace).Sublist sent ∧
      IsDelivered trace handler places ∧
      ∀ m rounds, 2 ≤ rounds →
        let waiting := (sent.drop (passed places)).rtake EventBus.capacity
        readings handler ((start c).run (ops ++ List.replicate m (.next handler rounds))).2 =
          readings handler trace ++ ((waiting.map Reading.event).take m ++
            List.replicate (m - waiting.length)
              (if ((start c).run ops).1.isGone then .closed else .pending)) := by
  intro trace sent
  have hagrees : Agrees docs ((start c).run ops).1 trace := (agrees_start docs).run ops
  have hlt : handler < ((start c).run ops).1.handlers.length := by
    rw [← hagrees.count]
    exact hhandler
  obtain ⟨k, places, hfollows, hdelivered⟩ := hagrees.hears handler hlt
  refine ⟨places, hfollows.found, hfollows.ascending, hfollows.sublist, hdelivered, ?_⟩
  intro m rounds hrounds waiting
  have hwaiting : (docs.account ((start c).run ops).1.channel).held.rtake k = waiting :=
    hfollows.waiting_eq
  have hlater := hagrees.readings_replicate hlt hrounds hfollows.behind m
  rw [run_append, readings, List.filterMap_append, ← readings, ← readings, hlater, hwaiting]

/-- A handler receives the first of two events and is about to read the second when the bus is
dropped. -/
theorem run_delivers_dropped :
    let ops : List Operation := [.subscribe, .emit .cleared, .next 0 2, .emit (.activated 0), .drop]
    let trace := ((start EventBus.channel).run ops).2
    0 < trace.count .subscribed ∧ 2 ≤ 2 ∧
      readings 0 trace = [.event .cleared] ∧ sentTo 0 trace = [.cleared, .activated 0] ∧
      ∃ places : List Nat,
        (received 0 trace).map some = places.map (fun j => (sentTo 0 trace)[j]?) ∧
        places.Pairwise (· < ·) ∧
        (received 0 trace).Sublist (sentTo 0 trace) ∧
        IsDelivered trace 0 places ∧
        let waiting := ((sentTo 0 trace).drop (passed places)).rtake EventBus.capacity
        readings 0 ((start EventBus.channel).run (ops ++ List.replicate 3 (.next 0 2))).2 =
          readings 0 trace ++ ((waiting.map Reading.event).take 3 ++
            List.replicate (3 - waiting.length)
              (if ((start EventBus.channel).run ops).1.isGone then .closed else .pending)) := by
  intro ops trace
  have hhandler : 0 < trace.count .subscribed := by decide
  obtain ⟨places, hfound, hascending, hsublist, hdelivered, hlater⟩ :=
    run_delivers EventBus.documented ops hhandler
  exact ⟨hhandler, Nat.le_refl 2, by decide, by decide, places, hfound, hascending, hsublist,
    hdelivered, hlater 3 2 (Nat.le_refl 2)⟩

end Broadcast

end ClassHighlight
