import ClassHighlight.Paint.Listing
import ClassHighlight.Paint.Terminal
import ClassHighlight.Session.Basic

/-!
# Previews

A preview opens one document in a session of its own, moves the cursor if asked to, and shows the
document as a terminal paints it.
-/

namespace ClassHighlight

/-- A place in a document. -/
inductive Place where
  /-- The character that holds the byte at an offset. -/
  | offset (n : Nat)
  /-- The character at a position. -/
  | position (p : Position)
deriving DecidableEq, Repr

/-- The offset of a place in a buffer. -/
def Place.offsetIn (b : Buffer) : Place → Except BufferError Nat
  | .offset n => .ok n
  | .position p => b.offsetOfPosition p

/-- A document as a terminal paints it. -/
structure Preview where
  /-- The text of the document. -/
  text : Text
  /-- What is painted. -/
  highlights : Highlights
  /-- The terminal that paints it. -/
  terminal : Terminal

namespace Preview

/-- The text with escape sequences. -/
def ansi (p : Preview) : Text := p.terminal.render p.text

/-- The list of the spans. -/
def listing (p : Preview) : Text := p.highlights.list p.text

/-- Why there is no preview. -/
inductive Error where
  /-- The document cannot be opened. -/
  | opening (e : BufferError)
  /-- The document has no place for the cursor. -/
  | cursor (e : BufferError)
deriving DecidableEq, Repr

/-- The operations that move the cursor of a document to a place, if one is given. -/
def cursorMoves (id : DocumentId) (d : Document) :
    Option Place → Except BufferError (List Session.Operation)
  | none => .ok []
  | some place => do
    let offset ← place.offsetIn d.buffer
    let _ ← d.buffer.setCursor offset
    return [.moveCursor id offset]

/-- Previews a document under a configuration, whether or not highlighting is on in it. -/
def ofDocument (config : Config) (d : Document) (cursor? : Option Place) :
    Except BufferError Preview := do
  let (opened, first) := (Session.start { config with isEnabled := true }).add d
  let moves ← cursorMoves 0 d cursor?
  let (last, later) := opened.run (moves ++ [.rescan])
  return {
    text := d.buffer.text
    highlights := (last.highlights?.map Prod.snd).getD Highlights.empty
    terminal := Terminal.empty.performAll (first.calls ++ later.calls) }

/-- Previews a file, of which the content is given unless it is missing. -/
def ofFile (config : Config) (path : Text) (content? : Option ByteArray) (cursor? : Option Place) :
    Except Error Preview :=
  match Document.ofFile path content? with
  | .error e => .error (.opening e)
  | .ok d => (ofDocument config d cursor?).mapError .cursor

end Preview

end ClassHighlight
