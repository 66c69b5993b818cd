import ClassHighlight.Buffer.InPlace
import ClassHighlight.Session.Basic

/-!
# Sessions that are changed in place

The operations on sessions as sequences of assignments, calls to the host and events, each of which
happens before the next is tried. A document that is to be changed is looked up and its buffer is
changed where it is, so whatever a change that fails has left there would stay.
-/

namespace ClassHighlight

namespace Session

/-- A session in the middle of an operation. -/
structure Progress where
  /-- The session as it is by now. -/
  session : Session
  /-- What was shown to the outside so far. -/
  effects : Effects

namespace InPlace

/-- Something done to a session in place. -/
abbrev Action : Type → Type := ClassHighlight.InPlace Progress SessionError

/-- Assigns to a session. -/
def assign (f : Session → Session) : Action Unit :=
  modify fun p => { p with session := f p.session }

/-- Asks the host for something. -/
def request (calls : List PaintCall) : Action Unit :=
  modify fun p => { p with effects := p.effects ++ ⟨calls, []⟩ }

/-- Tells observers of an event. -/
def emit (e : Event) : Action Unit :=
  modify fun p => { p with effects := p.effects ++ .event e }

/-- Looks an open document up. -/
def find (id : DocumentId) : Action Document := do
  match (← get).session.document? id with
  | some d => return d
  | none => throw (.noDocument id)

/-! ## Painting -/

/-- Stops painting, and tells so if anything was painted. -/
def clear : Action Unit := do
  let overlay := (← get).session.overlay
  assign fun s => { s with overlay := overlay.clear.1 }
  request overlay.clear.2
  if overlay.isLive then
    emit .cleared

/-- Makes the painting current, and gives what is painted. -/
def repaint : Action (Option Highlights) := do
  let s := (← get).session
  match s.highlights? with
  | some (id, h) =>
    assign fun s => { s with overlay := (s.overlay.apply s.palette h).1 }
    request (s.overlay.apply s.palette h).2
    emit (.applied id h.counts)
    return some h
  | none =>
    clear
    return none

/-- Makes the painting current if a condition holds. -/
def repaintIf (needed : Bool) : Action Unit := do
  if needed then
    let _ ← repaint

/-! ## Documents -/

/-- Makes a document the active one. -/
def makeActive (id : DocumentId) : Action Unit := do
  assign fun s => { s with active? := some id }
  emit (.activated id)
  let _ ← repaint

/-- Opens a document and makes it the active one. -/
def add (d : Document) : Action DocumentId := do
  let id := (← get).session.opened
  assign fun s => { s with documents := s.documents ++ [(id, d)], opened := id + 1 }
  emit (.opened id)
  makeActive id
  return id

/-- Closes a document, and stops painting if it was the active one. -/
def close (id : DocumentId) : Action Unit := do
  let _ ← find id
  assign fun s => { s with documents := s.documents.filter fun entry => entry.1 != id }
  emit (.closed id)
  if (← get).session.active? = some id then
    assign fun s => { s with active? := none }
    clear

/-- Changes the buffer of an open document where it is, also if the change fails. -/
def changeBuffer {α : Type} (id : DocumentId) (change : RawBuffer.Change α) : Action α := do
  let d ← find id
  let changed := change.on d.buffer.raw
  assign fun s => s.setBuffer id changed.2.confine
  match changed.1 with
  | .ok a => return a
  | .error e => throw (.buffer e)

/-- Replaces a range of characters of a document. -/
def edit (id : DocumentId) (start stop : Nat) (t : Text) : Action Unit := do
  let _ ← changeBuffer id (RawBuffer.replace start stop t)
  repaintIf ((← get).session.active? = some id)

/-- Moves the cursor of a document to an offset. -/
def moveCursor (id : DocumentId) (offset : Nat) : Action Unit := do
  changeBuffer id (RawBuffer.setCursor offset)
  let s := (← get).session
  repaintIf (s.active? = some id ∧ s.config.mode = .cursor)

/-! ## Configuration -/

/-- Changes the configuration, and tells of the status if it is another one. -/
def configure (config : Config) : Action Unit := do
  let before := (← get).session.config.status
  assign fun s => { s with config, palette := config.palette }
  if config.status ≠ before then
    emit (.status config.status)
  let _ ← repaint

/-! ## Operations -/

/-- Does an operation step by step. -/
def act : Operation → Action Outcome
  | .openText t => return .opened (← add (.ofText t))
  | .openFile path content? => do
    match Document.ofFile path content? with
    | .ok d => return .opened (← add d)
    | .error e => throw (.buffer e)
  | .activate id => do
    let _ ← find id
    makeActive id
    return .done
  | .close id => do
    close id
    return .done
  | .edit id start stop t => do
    edit id start stop t
    return .done
  | .moveCursor id offset => do
    moveCursor id offset
    return .done
  | .configure config => do
    configure config
    return .done
  | .toggle => do
    let config := (← get).session.config
    configure { config with isEnabled := !config.isEnabled }
    return .done
  | .setMode mode => do
    configure { (← get).session.config with mode }
    return .done
  | .setPreset preset => do
    configure { (← get).session.config with preset }
    return .done
  | .rescan => return .painted (← repaint)
  | .shutdown => do
    clear
    return .done

end InPlace

/-- Does an operation step by step, and gives what is left of the session, what was shown, and the
outcome. -/
def performInPlace (s : Session) (op : Operation) :
    Session × Effects × Except SessionError Outcome :=
  let (outcome, left) := (InPlace.act op).on ⟨s, .none⟩
  (left.session, left.effects, outcome)

/-- Does operations step by step, one after the other. -/
def runInPlace (s : Session) : List Operation → Session × Effects
  | [] => (s, .none)
  | op :: rest =>
    let (left, effects, _) := s.performInPlace op
    let (last, later) := runInPlace left rest
    (last, effects ++ later)

end Session

end ClassHighlight
