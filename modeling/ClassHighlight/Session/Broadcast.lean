import ClassHighlight.Session.EventBus

/-!
# Event buses on a channel

An event bus is a channel of a fixed capacity, and a handler is one of its receivers. The channel is
not part of this library: it is any `Channel`, of which `Channel.Documented` says what its
documentation promises. A handler that missed events is told so by its channel and asks again.
Between two of these rounds anything else may happen, so a handler that reads can be interrupted
after each of them; when it goes on it starts anew, as it remembers nothing in between.
-/

namespace ClassHighlight

/-! ## Channels -/

/-- What a receiver of a channel finds. -/
inductive Received where
  /-- An event. -/
  | event (e : Event)
  /-- So many events were missed. -/
  | lagged (missed : Nat)
  /-- Nothing yet. -/
  | empty
  /-- Nothing, and there will be no more. -/
  | closed
deriving DecidableEq, Repr

/-- A channel that hands each event to all its receivers. -/
structure Channel where
  /-- The channel between two calls. -/
  State : Type
  /-- A channel that keeps so many events. -/
  create : (capacity : Nat) → State
  /-- Adds a receiver, and gives its number. -/
  subscribe : State → State × Nat
  /-- Sends an event, and tells whether there is a receiver. -/
  send : State → Event → State × Bool
  /-- Receives what a receiver finds next. -/
  receive : State → (receiver : Nat) → State × Received
  /-- Ends the sending. -/
  close : State → State

namespace Channel

/-- What the documentation speaks of: how a channel stands. -/
structure Account where
  /-- The number of events that can be kept. -/
  capacity : Nat
  /-- The events that are kept, the oldest first. -/
  held : List Event
  /-- For each receiver, the number of events that were sent and that it was not told of yet, be
  they kept or not. -/
  behind : List Nat
  /-- Whether events can still be sent. -/
  isOpen : Bool
deriving DecidableEq, Repr

/-- The documentation of a channel. Nothing is said of what is kept when nobody receives. -/
structure Documented (c : Channel) where
  /-- How the channel stands. -/
  account : c.State → Account
  /-- No more events are kept than can be. -/
  bounded : ∀ s, (account s).held.length ≤ (account s).capacity
  /-- A new channel has no receivers. -/
  created : account (c.create EventBus.capacity) = ⟨EventBus.capacity, [], [], true⟩
  /-- A new receiver receives what is sent from then on. -/
  subscribed : ∀ s, (account s).isOpen = true →
    account (c.subscribe s).1 = { account s with behind := (account s).behind ++ [0] } ∧
      (c.subscribe s).2 = (account s).behind.length
  /-- An event is kept for all receivers, and the oldest gives way to it if there are too many. -/
  sent : ∀ s e, (account s).isOpen = true → (account s).behind ≠ [] →
    account (c.send s e).1 =
      { account s with
        held := ((account s).held ++ [e]).drop
          (((account s).held ++ [e]).length - (account s).capacity)
        behind := (account s).behind.map (· + 1) }
  /-- Without receivers, sending adds none. -/
  unheard : ∀ s e, (account s).isOpen = true → (account s).behind = [] →
    ∃ held, account (c.send s e).1 = { account s with held }
  /-- A receiver that was told of all events finds none, or the end. -/
  finished : ∀ s receiver, (account s).behind[receiver]? = some 0 →
    account (c.receive s receiver).1 = account s ∧
      (c.receive s receiver).2 = if (account s).isOpen then .empty else .closed
  /-- A receiver finds the event after those that it was told of, if that is kept. -/
  received : ∀ s receiver k e later, (account s).behind[receiver]? = some k →
    k ≤ (account s).held.length →
    (account s).held.drop ((account s).held.length - k) = e :: later →
    account (c.receive s receiver).1 =
        { account s with behind := (account s).behind.set receiver later.length } ∧
      (c.receive s receiver).2 = .event e
  /-- Otherwise it is told how many it has missed, and goes on with the oldest that is kept. -/
  lagged : ∀ s receiver k, (account s).behind[receiver]? = some k →
    (account s).held.length < k →
    account (c.receive s receiver).1 =
        { account s with
          behind := (account s).behind.set receiver (account s).held.length } ∧
      (c.receive s receiver).2 = .lagged (k - (account s).held.length)
  /-- After the end everything else is as before. -/
  ended : ∀ s, account (c.close s) = { account s with isOpen := false }

end Channel

/-! ## The bus -/

/-- An event bus on a channel, with its handlers. -/
structure Broadcast (c : Channel) where
  /-- The channel. -/
  channel : c.State
  /-- The receivers of the handlers. -/
  handlers : List Nat
  /-- Whether the bus was dropped. -/
  isGone : Bool

namespace Broadcast

variable {c : Channel}

/-- What a handler finds when it reads. -/
inductive Reading where
  /-- The next event. -/
  | event (e : Event)
  /-- No event yet: the handler waits. -/
  | pending
  /-- The end. -/
  | closed
  /-- The handler has missed events, and was interrupted before it asked again. -/
  | interrupted
deriving DecidableEq, Repr

/-- A bus without handlers. -/
def start (c : Channel) : Broadcast c := ⟨c.create EventBus.capacity, [], false⟩

/-- Adds a handler of all later events. -/
def subscribe (b : Broadcast c) : Broadcast c :=
  let (channel, receiver) := c.subscribe b.channel
  { b with channel, handlers := b.handlers ++ [receiver] }

/-- Emits an event; it does not matter whether there is a handler. -/
def emit (b : Broadcast c) (e : Event) : Broadcast c :=
  let (channel, _) := c.send b.channel e
  { b with channel }

/-- Drops the bus; its handlers are left. -/
def drop (b : Broadcast c) : Broadcast c :=
  { b with channel := c.close b.channel, isGone := true }

/-- Reads the next event. The receiver asks again after it has missed events, but not more than so
many times in all before it is interrupted. -/
def read (receiver : Nat) : (rounds : Nat) → c.State → c.State × Reading
  | 0, s => (s, .interrupted)
  | rounds + 1, s =>
    match c.receive s receiver with
    | (next, .event e) => (next, .event e)
    | (next, .lagged _) => read receiver rounds next
    | (next, .empty) => (next, .pending)
    | (next, .closed) => (next, .closed)

/-! ## Operations -/

/-- Something that is done with a bus or one of its handlers. -/
inductive Operation where
  /-- Adds a handler. -/
  | subscribe
  /-- Emits an event. -/
  | emit (e : Event)
  /-- A handler reads, and may be interrupted after some rounds. -/
  | next (handler rounds : Nat)
  /-- Drops the bus. -/
  | drop
deriving DecidableEq, Repr

/-- What has happened. -/
inductive Occurrence where
  /-- A handler was added. -/
  | subscribed
  /-- An event was emitted. -/
  | emitted (e : Event)
  /-- A handler has read. -/
  | read (handler : Nat) (reading : Reading)
  /-- The bus was dropped. -/
  | dropped
  /-- Nothing: there is no such handler, or no bus any more. -/
  | nothing
deriving DecidableEq, Repr

/-- Performs an operation. -/
def perform (b : Broadcast c) : Operation → Broadcast c × Occurrence
  | .subscribe => if b.isGone then (b, .nothing) else (b.subscribe, .subscribed)
  | .emit e => if b.isGone then (b, .nothing) else (b.emit e, .emitted e)
  | .next handler rounds =>
    match b.handlers[handler]? with
    | some receiver =>
      let (channel, reading) := read receiver rounds b.channel
      ({ b with channel }, .read handler reading)
    | none => (b, .nothing)
  | .drop => if b.isGone then (b, .nothing) else (b.drop, .dropped)

/-- Performs operations one after the other, and tells what has happened. -/
def run (b : Broadcast c) : List Operation → Broadcast c × List Occurrence
  | [] => (b, [])
  | op :: rest =>
    let (next, occurrence) := b.perform op
    let (last, later) := run next rest
    (last, occurrence :: later)

end Broadcast

end ClassHighlight
