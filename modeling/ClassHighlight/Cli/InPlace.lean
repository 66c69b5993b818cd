import ClassHighlight.Buffer.Lookup
import ClassHighlight.Cli.Run
import ClassHighlight.Paint.Canvas
import ClassHighlight.Session.InPlace

/-!
# Highlighting from the command line, step by step

The file is opened in a session, which scans it and paints; then the cursor is moved, which may scan
and paint again; then the session is asked to scan and paint once more. What the last scan gives, or
what the terminal shows after all calls, is printed, and the session is shut down.
-/

namespace ClassHighlight

namespace Cli

/-- Why the steps can end before all are done. -/
inductive Failure where
  /-- The file cannot be highlighted as it was asked for. -/
  | run (e : RunError)
  /-- The document that was opened is not open any more. -/
  | closed
  /-- The session refuses. -/
  | session (e : SessionError)
  /-- Highlighting is off. -/
  | disabled
  /-- The terminal shows nothing. -/
  | unrendered
deriving DecidableEq, Repr

namespace InPlace

/-- Something done with a session. -/
abbrev Action : Type → Type := ClassHighlight.InPlace Session.Progress Failure

/-- Opens the file, of which the content is given unless it is missing. -/
def openFile (file : Text) (content? : Option ByteArray) : Action DocumentId :=
  match Document.ofFile file content? with
  | .ok d => (Session.InPlace.add d).mapError .session
  | .error _ => throw (.run (.file file))

/-- A document that should be open. -/
def document (id : DocumentId) : Action Document := do
  match (← get).session.document? id with
  | some d => return d
  | none => throw .closed

/-- Moves the cursor to a position, if one is given. -/
def moveCursor (id : DocumentId) : Option Position → Action Unit
  | none => return ()
  | some p => do
    let d ← document id
    match d.buffer.raw.offsetOfPosition p with
    | .ok offset => (Session.InPlace.moveCursor id offset).mapError .session
    | .error _ => throw (.run (.cursor p))

/-- Scans once more. -/
def rescan : Action Highlights := do
  match ← Session.InPlace.repaint.mapError .session with
  | some h => return h
  | none => throw .disabled

/-- The terminal after all that it was asked for. -/
def terminal : Action Terminal := do
  return Terminal.empty.performAll (← get).effects.calls

/-- What is printed in a format. -/
def output (format : Format) (file text : Text) (h : Highlights) : Action Text := do
  match format with
  | .ansi =>
    match (← terminal).render? text with
    | some shown => return shown
    | none => throw .unrendered
  | .spans => return h.list text
  | .json => return (report file (← get).session.config h).write ++ ['\n']

/-- Highlights a file in a session that was just started. -/
def highlight (file : Text) (a : Arguments) (content? : Option ByteArray) : Action Text := do
  let id ← openFile file content?
  moveCursor id a.cursor?
  let h ← rescan
  let d ← document id
  let printed ← output (a.format?.getD .ansi) file d.buffer.text h
  Session.InPlace.clear.mapError .session
  return printed

end InPlace

/-- What is printed for a file when it is highlighted step by step, given the contents of the
configuration file and of the file, unless they are missing. -/
def highlightInPlace (file : Text) (a : Arguments) (config? content? : Option ByteArray) :
    Except Failure Text :=
  match configFor a config? with
  | .ok config => ((InPlace.highlight file a content?).on ⟨.start config, .none⟩).1
  | .error e => .error (.run e)

end Cli

end ClassHighlight
