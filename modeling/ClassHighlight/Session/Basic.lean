import ClassHighlight.Buffer.Basic
import ClassHighlight.Paint.Overlay
import ClassHighlight.Session.Event

/-!
# Sessions

A session holds open documents, of which at most one is active, and keeps the painting of the
active one current. Its operations are values, so that a run of a session is a list of them;
performing one gives the new session, the paint calls and events in their order, and a result. An
operation that fails changes nothing.
-/

namespace ClassHighlight

/-- An open document. -/
structure Document where
  /-- The name that is shown for it. -/
  name : Text
  /-- Its text and cursor. -/
  buffer : Buffer
deriving DecidableEq, Repr

namespace Document

/-- The name of a document that was not loaded from a file. -/
def untitled : Text := "Untitled".toList

/-- A document with the given text. -/
def ofText (t : Text) : Document := ⟨untitled, Buffer.ofText t⟩

/-- The part of a path after its last slash. -/
def fileName (path : Text) : Text :=
  (path.reverse.takeWhile (· != '/')).reverse

/-- A document loaded from a file, of which the content is given unless it is missing. -/
def ofFile (path : Text) (content? : Option ByteArray) : Except BufferError Document :=
  (Buffer.ofFile path content?).map fun b => ⟨fileName path, b⟩

end Document

/-- A configuration with the documents that are open under it. -/
structure Session where
  /-- The configuration. -/
  config : Config
  /-- The colors to paint with, resolved once for each configuration. -/
  palette : Palette
  /-- The open documents. -/
  documents : List (DocumentId × Document)
  /-- The number of documents ever opened. -/
  opened : Nat
  /-- The active document, if any. -/
  active? : Option DocumentId
  /-- The decorations of the host. -/
  overlay : Overlay
deriving Repr

/-- What an operation shows to the outside. -/
structure Effects where
  /-- What the host is asked for. -/
  calls : List PaintCall
  /-- What observers are told. -/
  events : List Event
deriving DecidableEq, Repr

namespace Effects

/-- Nothing happens. -/
def none : Effects := ⟨[], []⟩

/-- One event. -/
def event (e : Event) : Effects := ⟨[], [e]⟩

/-- First some effects, then others. -/
instance : Append Effects where
  append a b := ⟨a.calls ++ b.calls, a.events ++ b.events⟩

end Effects

/-- Why an operation on a session fails. -/
inductive SessionError where
  /-- No document with this number is open. -/
  | noDocument (id : DocumentId)
  /-- The document's buffer refuses. -/
  | buffer (e : BufferError)
deriving DecidableEq, Repr

/-- The message of an error. -/
def SessionError.message : SessionError → Text
  | .noDocument id => "No open document has number ".toList ++ Text.decimal id
  | .buffer e => "Buffer error: ".toList ++ e.message

namespace Session

/-- A session without documents. -/
def start (config : Config) : Session := ⟨config, config.palette, [], 0, none, Overlay.empty⟩

/-- The open document with a given number. -/
def document? (s : Session) (id : DocumentId) : Option Document :=
  s.documents.lookup id

/-- The active document. -/
def activeDocument? (s : Session) : Option Document :=
  s.active?.bind s.document?

/-- The status to show. -/
def status (s : Session) : Status := s.config.status

/-- Whether something may be painted. -/
def isPainting (s : Session) : Bool := s.overlay.isLive

/-! ## Painting -/

/-- Stops painting, and tells so if anything was painted. -/
def clear (s : Session) : Session × Effects :=
  let (overlay, calls) := s.overlay.clear
  ({ s with overlay }, ⟨calls, if s.overlay.isLive then [.cleared] else []⟩)

/-- What is to be painted: the highlights of the active document, if highlighting is on. -/
def highlights? (s : Session) : Option (DocumentId × Highlights) :=
  if s.config.isEnabled then
    s.active?.bind fun id =>
      (s.document? id).map fun d =>
        (id, scan d.buffer.text (some d.buffer.cursorOffset) s.config.mode)
  else
    none

/-- Makes the painting current. -/
def repaint (s : Session) : Session × Effects :=
  match s.highlights? with
  | some (id, h) =>
    let (overlay, calls) := s.overlay.apply s.palette h
    ({ s with overlay }, ⟨calls, [.applied id h.counts]⟩)
  | none => s.clear

/-- Makes the painting current if a condition holds. -/
def repaintIf (s : Session) (needed : Bool) : Session × Effects :=
  if needed then s.repaint else (s, .none)

/-! ## Documents -/

/-- Makes an open document the active one. -/
def makeActive (s : Session) (id : DocumentId) : Session × Effects :=
  let (painted, effects) := { s with active? := some id }.repaint
  (painted, .event (.activated id) ++ effects)

/-- Opens a document and makes it the active one. -/
def add (s : Session) (d : Document) : Session × Effects :=
  let id := s.opened
  let (next, effects) :=
    { s with documents := s.documents ++ [(id, d)], opened := id + 1 }.makeActive id
  (next, .event (.opened id) ++ effects)

/-- Closes a document. -/
def remove (s : Session) (id : DocumentId) : Session × Effects :=
  let rest := { s with documents := s.documents.filter fun entry => entry.1 != id }
  if s.active? = some id then
    let (next, effects) := { rest with active? := none }.clear
    (next, .event (.closed id) ++ effects)
  else
    (rest, .event (.closed id))

/-- Replaces the buffer of a document. -/
def setBuffer (s : Session) (id : DocumentId) (b : Buffer) : Session :=
  { s with
    documents := s.documents.map fun entry =>
      if entry.1 = id then (id, { entry.2 with buffer := b }) else entry }

/-- The buffer of an open document. -/
def buffer (s : Session) (id : DocumentId) : Except SessionError Buffer :=
  match s.document? id with
  | some d => .ok d.buffer
  | none => .error (.noDocument id)

/-! ## Configuration -/

/-- Changes the configuration. -/
def configure (s : Session) (config : Config) : Session × Effects :=
  let told : Effects :=
    if config.status = s.config.status then .none else .event (.status config.status)
  let (painted, effects) := { s with config, palette := config.palette }.repaint
  (painted, told ++ effects)

/-! ## Operations -/

/-- Something to be done with a session. -/
inductive Operation where
  /-- Opens a document with the given text. -/
  | openText (text : Text)
  /-- Opens a file, of which the content is given unless it is missing. -/
  | openFile (path : Text) (content? : Option ByteArray)
  /-- Makes a document the active one. -/
  | activate (id : DocumentId)
  /-- Closes a document. -/
  | close (id : DocumentId)
  /-- Replaces a range of characters of a document. -/
  | edit (id : DocumentId) (start stop : Nat) (text : Text)
  /-- Moves the cursor of a document to an offset. -/
  | moveCursor (id : DocumentId) (offset : Nat)
  /-- Changes the configuration. -/
  | configure (config : Config)
  /-- Turns highlighting on or off. -/
  | toggle
  /-- Changes the mode. -/
  | setMode (mode : Mode)
  /-- Changes the preset. -/
  | setPreset (name : Text)
  /-- Makes the painting current. -/
  | rescan
  /-- Stops painting. -/
  | shutdown

/-- What an operation gives. -/
inductive Outcome where
  /-- Nothing but its effects. -/
  | done
  /-- The number of the document that was opened. -/
  | opened (id : DocumentId)
  /-- What is painted, if anything is. -/
  | painted (highlights? : Option Highlights)

/-- Tries an operation. -/
def attempt (s : Session) : Operation → Except SessionError (Session × Effects × Outcome)
  | .openText t =>
    let (next, effects) := s.add (.ofText t)
    .ok (next, effects, .opened s.opened)
  | .openFile path content? =>
    match Document.ofFile path content? with
    | .error e => .error (.buffer e)
    | .ok d =>
      let (next, effects) := s.add d
      .ok (next, effects, .opened s.opened)
  | .activate id => do
    let _ ← s.buffer id
    let (next, effects) := s.makeActive id
    return (next, effects, .done)
  | .close id => do
    let _ ← s.buffer id
    let (next, effects) := s.remove id
    return (next, effects, .done)
  | .edit id start stop t => do
    let b ← s.buffer id
    match b.replace start stop t with
    | .error e => throw (.buffer e)
    | .ok (edited, _) =>
      let (next, effects) := (s.setBuffer id edited).repaintIf (s.active? = some id)
      return (next, effects, .done)
  | .moveCursor id offset => do
    let b ← s.buffer id
    match b.setCursor offset with
    | .error e => throw (.buffer e)
    | .ok moved =>
      let needed := s.active? = some id ∧ s.config.mode = .cursor
      let (next, effects) := (s.setBuffer id moved).repaintIf needed
      return (next, effects, .done)
  | .configure config =>
    let (next, effects) := s.configure config
    .ok (next, effects, .done)
  | .toggle =>
    let (next, effects) := s.configure { s.config with isEnabled := !s.config.isEnabled }
    .ok (next, effects, .done)
  | .setMode mode =>
    let (next, effects) := s.configure { s.config with mode }
    .ok (next, effects, .done)
  | .setPreset preset =>
    let (next, effects) := s.configure { s.config with preset }
    .ok (next, effects, .done)
  | .rescan =>
    let (next, effects) := s.repaint
    .ok (next, effects, .painted (s.highlights?.map Prod.snd))
  | .shutdown =>
    let (next, effects) := s.clear
    .ok (next, effects, .done)

/-- Performs an operation; if it fails, the session is as before and nothing is shown. -/
def perform (s : Session) (op : Operation) : Session × Effects × Except SessionError Outcome :=
  match s.attempt op with
  | .ok (next, effects, outcome) => (next, effects, .ok outcome)
  | .error e => (s, .none, .error e)

/-- Performs operations one after the other and collects their effects. -/
def run (s : Session) : List Operation → Session × Effects
  | [] => (s, .none)
  | op :: rest =>
    let (next, effects, _) := s.perform op
    let (last, later) := run next rest
    (last, effects ++ later)

/-- What a session shows to the outside when it ends: it stops painting. -/
def finish (s : Session) : Effects := s.clear.2

end Session

end ClassHighlight
