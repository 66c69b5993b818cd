import ClassHighlight.Session.Event

/-!
# Event buses

A bus hands each event to all readers that subscribed before it was emitted. It keeps only the
last events; a reader that falls behind goes on with the oldest one that is kept.
-/

namespace ClassHighlight

/-- Events on their way to readers. -/
structure EventBus where
  /-- The number of events ever emitted. -/
  emitted : Nat
  /-- The last of them, the oldest first. -/
  kept : List Event
  /-- For each reader, the number of events emitted before the one it reads next. -/
  readers : List Nat
  /-- Whether events can still be emitted. -/
  isOpen : Bool
deriving DecidableEq, Repr

namespace EventBus

/-- The largest number of events that are kept. -/
def capacity : Nat := 64

/-- An open bus without readers. -/
def empty : EventBus := ⟨0, [], [], true⟩

/-- Adds a reader of all later events, if the bus is open. -/
def subscribe (bus : EventBus) : EventBus :=
  if bus.isOpen then { bus with readers := bus.readers ++ [bus.emitted] } else bus

/-- Emits an event, if the bus is open. -/
def emit (bus : EventBus) (e : Event) : EventBus :=
  if bus.isOpen then
    let all := bus.kept ++ [e]
    { bus with emitted := bus.emitted + 1, kept := all.drop (all.length - capacity) }
  else
    bus

/-- Emits events one after the other. -/
def emitAll (bus : EventBus) (es : List Event) : EventBus :=
  es.foldl emit bus

/-- No more events can be emitted. -/
def close (bus : EventBus) : EventBus := { bus with isOpen := false }

/-- The number of events that are no longer kept. -/
def forgotten (bus : EventBus) : Nat := bus.emitted - bus.kept.length

/-- The events that a reader can still read. -/
def waiting (bus : EventBus) (reader : Nat) : List Event :=
  match bus.readers[reader]? with
  | some passed => bus.kept.drop (passed - bus.forgotten)
  | none => []

/-- What a reader finds. -/
inductive Reading where
  /-- The next event. -/
  | event (e : Event)
  /-- No event yet. -/
  | pending
  /-- All events were read, and there will be no more. -/
  | closed
deriving DecidableEq, Repr

/-- Reads the next event. -/
def next (bus : EventBus) (reader : Nat) : EventBus × Reading :=
  match bus.waiting reader with
  | e :: later =>
    ({ bus with readers := bus.readers.set reader (bus.emitted - later.length) }, .event e)
  | [] => (bus, if bus.isOpen then .pending else .closed)

/-- Reads all events that are waiting. -/
def drain (bus : EventBus) (reader : Nat) : EventBus × List Event :=
  ({ bus with readers := bus.readers.set reader bus.emitted }, bus.waiting reader)

end EventBus

end ClassHighlight
