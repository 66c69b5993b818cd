import ClassHighlight.Session.Broadcast

/-!
# A channel with its documentation

`EventBus` gives a channel when its readers ask in rounds: a reader that has missed events is told
so, and goes on with the oldest one that is kept. This channel does what `Channel.Documented` says,
so a documented channel exists; and a handler on it that is not interrupted reads what
`EventBus.next` does.
-/

namespace ClassHighlight

namespace EventBus

/-! ## Steady buses -/

/-- All events are kept up to the capacity, and no reader is ahead of them. -/
structure IsSteady (bus : EventBus) : Prop where
  /-- As many of the events are kept as can be. -/
  length_kept : bus.kept.length = min bus.emitted capacity
  /-- Nobody has read what was not emitted. -/
  readers_le : ∀ passed ∈ bus.readers, passed ≤ bus.emitted

section Steady

variable {bus : EventBus} {reader passed : Nat}

theorem isSteady_empty : IsSteady empty := ⟨rfl, nofun⟩

theorem IsSteady.emitted_sub_forgotten (h : bus.IsSteady) :
    bus.emitted - bus.forgotten = bus.kept.length := by
  have hlength := h.length_kept
  unfold forgotten
  omega

theorem forgotten_le (bus : EventBus) : bus.forgotten ≤ bus.emitted := Nat.sub_le _ _

theorem IsSteady.passed_le (h : bus.IsSteady) (hpassed : bus.readers[reader]? = some passed) :
    passed ≤ bus.emitted :=
  h.readers_le passed (List.mem_of_getElem? hpassed)

theorem IsSteady.subscribe (h : bus.IsSteady) : bus.subscribe.IsSteady := by
  unfold EventBus.subscribe
  split
  · refine ⟨h.length_kept, fun passed hpassed => ?_⟩
    rcases List.mem_append.mp hpassed with hold | hnew
    · exact h.readers_le passed hold
    · exact Nat.le_of_eq (List.mem_singleton.mp hnew)
  · exact h

theorem IsSteady.emit (h : bus.IsSteady) (e : Event) : (bus.emit e).IsSteady := by
  have hlength := h.length_kept
  unfold EventBus.emit
  split
  · refine ⟨?_, fun passed hpassed => Nat.le_succ_of_le (h.readers_le passed hpassed)⟩
    simp only [List.length_drop, List.length_append, List.length_singleton]
    omega
  · exact h

theorem IsSteady.close (h : bus.IsSteady) : bus.close.IsSteady := ⟨h.length_kept, h.readers_le⟩

/-- A reader is moved, but not ahead of the events. -/
theorem IsSteady.set (h : bus.IsSteady) (reader : Nat) (hle : passed ≤ bus.emitted) :
    IsSteady { bus with readers := bus.readers.set reader passed } := by
  refine ⟨h.length_kept, fun other hother => ?_⟩
  rcases List.mem_or_eq_of_mem_set hother with hold | rfl
  · exact h.readers_le other hold
  · exact hle

end Steady

/-! ## Reading in rounds -/

/-- A reader that has missed events goes on with the oldest one that is kept. -/
def skip (bus : EventBus) (reader : Nat) : EventBus :=
  { bus with readers := bus.readers.set reader bus.forgotten }

/-- What a receiver finds when it reads. -/
def Reading.received : Reading → Received
  | .event e => .event e
  | .pending => .empty
  | .closed => .closed

/-- One round of a reader. -/
def ask (bus : EventBus) (reader : Nat) : EventBus × Received :=
  match bus.readers[reader]? with
  | some passed =>
    if passed < bus.forgotten then
      (bus.skip reader, .lagged (bus.forgotten - passed))
    else
      ((bus.next reader).1, (bus.next reader).2.received)
  | none => (bus, .closed)

section Ask

variable {bus : EventBus} {reader passed : Nat}

theorem ask_of_lt (hpassed : bus.readers[reader]? = some passed) (hlt : passed < bus.forgotten) :
    bus.ask reader = (bus.skip reader, .lagged (bus.forgotten - passed)) := by
  simp only [ask, hpassed, if_pos hlt]

theorem ask_of_le (hpassed : bus.readers[reader]? = some passed) (hle : bus.forgotten ≤ passed) :
    bus.ask reader = ((bus.next reader).1, (bus.next reader).2.received) := by
  simp only [ask, hpassed, if_neg (Nat.not_lt_of_le hle)]

theorem waiting_eq (hpassed : bus.readers[reader]? = some passed) :
    bus.waiting reader = bus.kept.drop (passed - bus.forgotten) := by
  simp only [waiting, hpassed]

theorem next_of_cons {e : Event} {later : List Event} (hwaiting : bus.waiting reader = e :: later) :
    bus.next reader =
      ({ bus with readers := bus.readers.set reader (bus.emitted - later.length) }, .event e) := by
  simp only [next, hwaiting]

theorem next_of_nil (hwaiting : bus.waiting reader = []) :
    bus.next reader = (bus, if bus.isOpen then .pending else .closed) := by
  simp only [next, hwaiting]

/-- A reader that was moved to the oldest event reads what it would have read anyway. -/
theorem next_skip (h : bus.IsSteady) (hpassed : bus.readers[reader]? = some passed)
    (hlt : passed < bus.forgotten) : (bus.skip reader).next reader = bus.next reader := by
  have hreader : reader < bus.readers.length := (List.getElem?_eq_some_iff.mp hpassed).1
  have hmoved : (bus.skip reader).readers[reader]? = some bus.forgotten :=
    List.getElem?_set_self hreader
  have hwaiting : bus.waiting reader = bus.kept := by
    rw [waiting_eq hpassed, Nat.sub_eq_zero_of_le (Nat.le_of_lt hlt), List.drop_zero]
  have hwaiting' : (bus.skip reader).waiting reader = bus.kept := by
    rw [waiting_eq hmoved]
    show bus.kept.drop (bus.forgotten - bus.forgotten) = _
    rw [Nat.sub_self, List.drop_zero]
  cases hkept : bus.kept with
  | nil =>
    have hlength := h.length_kept
    have hcapacity : 0 < capacity := by decide
    rw [forgotten] at hlt
    rw [hkept, List.length_nil] at hlength hlt
    omega
  | cons e later =>
    rw [hkept] at hwaiting hwaiting'
    rw [next_of_cons hwaiting, next_of_cons hwaiting']
    unfold skip
    rw [List.set_set]

theorem IsSteady.next (h : bus.IsSteady) (reader : Nat) : (bus.next reader).1.IsSteady := by
  cases hwaiting : bus.waiting reader with
  | nil =>
    rw [next_of_nil hwaiting]
    exact h
  | cons e later =>
    rw [next_of_cons hwaiting]
    exact h.set reader (Nat.sub_le _ _)

theorem IsSteady.ask (h : bus.IsSteady) (reader : Nat) : (bus.ask reader).1.IsSteady := by
  unfold EventBus.ask
  split
  · split
    · exact h.set reader bus.forgotten_le
    · exact h.next reader
  · exact h

end Ask

/-! ## The channel -/

/-- The bus as a channel. -/
def channel : Channel where
  State := { bus : EventBus // bus.IsSteady }
  create _ := ⟨empty, isSteady_empty⟩
  subscribe s := (⟨s.val.subscribe, s.property.subscribe⟩, s.val.readers.length)
  send s e := (⟨s.val.emit e, s.property.emit e⟩, s.val.isOpen && !s.val.readers.isEmpty)
  receive s reader := (⟨(s.val.ask reader).1, s.property.ask reader⟩, (s.val.ask reader).2)
  close s := ⟨s.val.close, s.property.close⟩

/-- How a bus stands as a channel. -/
def account (bus : EventBus) : Channel.Account :=
  ⟨capacity, bus.kept, bus.readers.map (bus.emitted - ·), bus.isOpen⟩

section Account

variable {bus : EventBus} {reader passed k : Nat}

/-- Who is behind is a reader. -/
theorem IsSteady.passed_of_behind (h : bus.IsSteady)
    (hbehind : bus.account.behind[reader]? = some k) :
    ∃ passed, bus.readers[reader]? = some passed ∧ passed + k = bus.emitted := by
  obtain ⟨passed, hpassed, rfl⟩ : ∃ passed, bus.readers[reader]? = some passed ∧
      bus.emitted - passed = k := by
    rw [account, List.getElem?_map] at hbehind
    exact Option.map_eq_some_iff.mp hbehind
  have hle := h.passed_le hpassed
  exact ⟨passed, hpassed, by omega⟩

theorem account_set (bus : EventBus) (reader passed : Nat) :
    account { bus with readers := bus.readers.set reader passed } =
      { bus.account with
        behind := bus.account.behind.set reader (bus.emitted - passed) } := by
  simp only [account, List.map_set]

theorem account_subscribe (hopen : bus.isOpen = true) :
    bus.subscribe.account = { bus.account with behind := bus.account.behind ++ [0] } := by
  rw [EventBus.subscribe, if_pos hopen]
  simp only [account, List.map_append, List.map_singleton, Nat.sub_self]

/-- Each reader is one more event behind. -/
theorem IsSteady.account_emit (h : bus.IsSteady) (hopen : bus.isOpen = true) (e : Event) :
    (bus.emit e).account =
      { bus.account with
        held := (bus.kept ++ [e]).drop ((bus.kept ++ [e]).length - capacity)
        behind := bus.account.behind.map (· + 1) } := by
  have hreaders : bus.readers.map (bus.emitted + 1 - ·) =
      (bus.readers.map (bus.emitted - ·)).map (· + 1) := by
    rw [List.map_map]
    exact List.map_congr_left fun passed hpassed => Nat.succ_sub (h.readers_le passed hpassed)
  rw [EventBus.emit, if_pos hopen]
  simp only [account, hreaders]

/-- A reader that is not behind finds nothing. -/
theorem IsSteady.ask_of_finished (h : bus.IsSteady)
    (hbehind : bus.account.behind[reader]? = some 0) :
    bus.ask reader = (bus, if bus.isOpen then .empty else .closed) := by
  obtain ⟨passed, hpassed, hlast⟩ := h.passed_of_behind hbehind
  have hforgotten := bus.forgotten_le
  have hsub := h.emitted_sub_forgotten
  have hwaiting : bus.waiting reader = [] := by
    rw [waiting_eq hpassed, List.drop_eq_nil_iff]
    omega
  rw [ask_of_le hpassed (by omega), next_of_nil hwaiting]
  cases bus.isOpen <;> rfl

/-- A reader that is behind by events that are kept finds the first of them. -/
theorem IsSteady.ask_of_received (h : bus.IsSteady) {e : Event} {later : List Event}
    (hbehind : bus.account.behind[reader]? = some k) (hle : k ≤ bus.kept.length)
    (hdrop : bus.kept.drop (bus.kept.length - k) = e :: later) :
    bus.ask reader =
        ({ bus with readers := bus.readers.set reader (bus.emitted - later.length) }, .event e) ∧
      later.length ≤ bus.emitted := by
  obtain ⟨passed, hpassed, hlast⟩ := h.passed_of_behind hbehind
  have hforgotten := bus.forgotten_le
  have hsub := h.emitted_sub_forgotten
  have hwaiting : bus.waiting reader = e :: later := by
    have hplace : passed - bus.forgotten = bus.kept.length - k := by omega
    rw [waiting_eq hpassed, hplace]
    exact hdrop
  constructor
  · rw [ask_of_le hpassed (by omega), next_of_cons hwaiting]
    rfl
  · have hlength := congrArg List.length hdrop
    rw [List.length_drop, List.length_cons] at hlength
    omega

/-- A reader that is behind by more is told so, and moved. -/
theorem IsSteady.ask_of_lagged (h : bus.IsSteady) (hbehind : bus.account.behind[reader]? = some k)
    (hmissed : bus.kept.length < k) :
    bus.ask reader = (bus.skip reader, .lagged (k - bus.kept.length)) := by
  obtain ⟨passed, hpassed, hlast⟩ := h.passed_of_behind hbehind
  have hforgotten := bus.forgotten_le
  have hsub := h.emitted_sub_forgotten
  have hcount : bus.forgotten - passed = k - bus.kept.length := by omega
  rw [ask_of_lt hpassed (by omega), hcount]

end Account

/-- The channel does what the documentation says. -/
def documented : channel.Documented where
  account s := s.val.account
  bounded := fun ⟨bus, h⟩ => by
    have hlength := h.length_kept
    show bus.kept.length ≤ capacity
    omega
  created := rfl
  subscribed := fun ⟨bus, h⟩ hopen => ⟨account_subscribe hopen, (List.length_map _).symm⟩
  sent := fun ⟨bus, h⟩ e hopen _ => h.account_emit hopen e
  unheard := fun ⟨bus, h⟩ e hopen hnobody => by
    have hnone : bus.account.behind = [] := hnobody
    have haccount := h.account_emit hopen e
    rw [hnone, List.map_nil, ← hnone] at haccount
    exact ⟨_, haccount⟩
  finished := fun ⟨bus, h⟩ reader hbehind => by
    have hask := h.ask_of_finished hbehind
    exact ⟨congrArg (fun result => account result.1) hask, congrArg Prod.snd hask⟩
  received := fun ⟨bus, h⟩ reader k e later hbehind hle hdrop => by
    obtain ⟨hask, hlater⟩ := h.ask_of_received hbehind hle hdrop
    refine ⟨?_, congrArg Prod.snd hask⟩
    show account (bus.ask reader).1 = _
    rw [hask, account_set, Nat.sub_sub_self hlater]
  lagged := fun ⟨bus, h⟩ reader k hbehind hmissed => by
    have hask := h.ask_of_lagged hbehind hmissed
    refine ⟨?_, congrArg Prod.snd hask⟩
    show account (bus.ask reader).1 = _
    rw [hask, skip, account_set, h.emitted_sub_forgotten]
    rfl
  ended := fun _ => rfl

/-! ## Handlers on it -/

/-- What a handler finds when a reader does. -/
def Reading.toHandler : Reading → Broadcast.Reading
  | .event e => .event e
  | .pending => .pending
  | .closed => .closed

section Handler

variable {s : channel.State} {reader passed : Nat}

/-- A round in which a reader was told of no missed events is the last. -/
theorem read_of_le (hpassed : s.val.readers[reader]? = some passed)
    (hle : s.val.forgotten ≤ passed) (rounds : Nat) :
    ((Broadcast.read reader (rounds + 1) s).1.val, (Broadcast.read reader (rounds + 1) s).2) =
      ((s.val.next reader).1, (s.val.next reader).2.toHandler) := by
  have hreceive : channel.receive s reader =
      (⟨(s.val.next reader).1, s.property.next reader⟩, (s.val.next reader).2.received) := by
    have hask := ask_of_le hpassed hle
    refine Prod.ext (Subtype.ext ?_) ?_
    · exact congrArg Prod.fst hask
    · show (s.val.ask reader).2 = _
      rw [hask]
  rw [Broadcast.read, hreceive]
  cases (s.val.next reader).2 <;> rfl

/-- A handler that is not interrupted reads like a reader of the bus. -/
theorem read_eq_next (hreader : reader < s.val.readers.length) (rounds : Nat) :
    ((Broadcast.read reader (rounds + 2) s).1.val, (Broadcast.read reader (rounds + 2) s).2) =
      ((s.val.next reader).1, (s.val.next reader).2.toHandler) := by
  have hpassed : s.val.readers[reader]? = some s.val.readers[reader] :=
    List.getElem?_eq_getElem hreader
  by_cases hlt : s.val.readers[reader] < s.val.forgotten
  · have hreceive : channel.receive s reader =
        (⟨s.val.skip reader, s.property.set reader s.val.forgotten_le⟩,
          .lagged (s.val.forgotten - s.val.readers[reader])) := by
      have hask := ask_of_lt hpassed hlt
      refine Prod.ext (Subtype.ext ?_) ?_
      · exact congrArg Prod.fst hask
      · show (s.val.ask reader).2 = _
        rw [hask]
    rw [Broadcast.read, hreceive, ← next_skip s.property hpassed hlt]
    exact read_of_le (List.getElem?_set_self hreader) (Nat.le_refl _) rounds
  · exact read_of_le hpassed (Nat.le_of_not_lt hlt) (rounds + 1)

end Handler

end EventBus

end ClassHighlight
