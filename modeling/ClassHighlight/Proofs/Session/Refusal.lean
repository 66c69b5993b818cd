import ClassHighlight.Proofs.Buffer.InPlace
import ClassHighlight.Proofs.Session.Operation

/-!
# What operations ask for, and when they are refused

An operation on a session opens a document, needs one that is open, or asks for a change of the
buffer of one. It fails if the file cannot be read, the document is not open, or the buffer refuses
the change, and for no other reason.
-/

namespace ClassHighlight

namespace Session

namespace Operation

/-- The buffer of the document that an operation opens, if it opens one. -/
def fresh? : Operation → Option RawBuffer
  | .openText t => some (.fresh t none)
  | .openFile path content? => (content?.bind Text.ofBytes?).map fun t => .fresh t (some path)
  | _ => none

/-- The document that has to be open, if there is one. -/
def document? : Operation → Option DocumentId
  | .activate id => some id
  | .close id => some id
  | .edit id _ _ _ => some id
  | .moveCursor id _ => some id
  | _ => none

/-- The change of a buffer that is asked for, if any, with the document that the buffer is of. -/
def change? : Operation → Option (DocumentId × Buffer.Operation)
  | .edit id start stop t => some (id, .replace start stop t)
  | .moveCursor id offset => some (id, .setCursor offset)
  | _ => none

end Operation

/-- An operation is not possible on a session, for a reason. -/
inductive Refuses (s : Session) : Operation → SessionError → Prop
  /-- A file has to be readable. -/
  | unreadable {path : Text} {content? : Option ByteArray}
      (h : content?.bind Text.ofBytes? = none) :
      Refuses s (.openFile path content?) (.buffer .unreadable)
  /-- A document that is named has to be open. -/
  | notOpen {op : Operation} {id : DocumentId} (hnamed : op.document? = some id)
      (hclosed : s.document? id = none) : Refuses s op (.noDocument id)
  /-- Its buffer has to allow the change. -/
  | buffer {op : Operation} {id : DocumentId} {change : Buffer.Operation} {d : Document}
      {e : BufferError} (hchange : op.change? = some (id, change))
      (hopen : s.document? id = some d) (h : d.buffer.raw.Refuses change e) :
      Refuses s op (.buffer e)

variable {s : Session} {op : Operation} {e : SessionError}

theorem ofFile_eq_error_iff {path : Text} {content? : Option ByteArray} {e : BufferError} :
    Document.ofFile path content? = .error e ↔
      content?.bind Text.ofBytes? = none ∧ e = .unreadable := by
  unfold Document.ofFile Buffer.ofFile
  cases content?.bind Text.ofBytes? with
  | none =>
    constructor
    · intro h
      cases h
      exact ⟨rfl, rfl⟩
    · rintro ⟨-, rfl⟩
      rfl
  | some t =>
    constructor
    · intro h
      cases h
    · rintro ⟨h, -⟩
      cases h

/-- Whatever names a document that is not open fails. -/
theorem attempt_of_notOpen {id : DocumentId} (hnamed : op.document? = some id)
    (hclosed : s.document? id = none) : s.attempt op = .error (.noDocument id) := by
  have hbuffer := buffer_of_none hclosed
  cases op with
  | activate id =>
    cases hnamed
    rw [attempt, hbuffer]
    rfl
  | close id =>
    cases hnamed
    rw [attempt, hbuffer]
    rfl
  | edit id start stop t =>
    cases hnamed
    rw [attempt, hbuffer]
    rfl
  | moveCursor id offset =>
    cases hnamed
    rw [attempt, hbuffer]
    rfl
  | _ => cases hnamed

/-- A change that the buffer refuses fails. -/
theorem attempt_of_refused {id : DocumentId} {change : Buffer.Operation} {d : Document}
    {e : BufferError} (hchange : op.change? = some (id, change)) (hopen : s.document? id = some d)
    (h : d.buffer.attempt change = .error e) : s.attempt op = .error (.buffer e) := by
  cases op with
  | edit id start stop t =>
    cases hchange
    have hreplace : d.buffer.replace start stop t = .error e := h
    simp only [attempt, buffer_of_some hopen, bind, Except.bind, hreplace]
    rfl
  | moveCursor id offset =>
    cases hchange
    have hmove : d.buffer.setCursor offset = .error e := by
      cases hmove : d.buffer.setCursor offset with
      | ok moved =>
        rw [Buffer.attempt, hmove] at h
        cases h
      | error e' =>
        rw [Buffer.attempt, hmove] at h
        cases h
        rfl
    simp only [attempt, buffer_of_some hopen, bind, Except.bind, hmove]
    rfl
  | _ => cases hchange

/-- What fails although the document that it names is open is a change that the buffer refuses. -/
theorem refuses_of_attempt {id : DocumentId} {d : Document} (hnamed : op.document? = some id)
    (hopen : s.document? id = some d) (h : s.attempt op = .error e) : s.Refuses op e := by
  have hbuffer := buffer_of_some hopen
  cases op with
  | activate id =>
    cases hnamed
    rw [attempt, hbuffer] at h
    cases h
  | close id =>
    cases hnamed
    rw [attempt, hbuffer] at h
    cases h
  | edit id start stop t =>
    cases hnamed
    cases hreplace : d.buffer.replace start stop t with
    | ok edited =>
      simp only [attempt, hbuffer, bind, Except.bind, hreplace] at h
      cases h
    | error e' =>
      have hattempt : d.buffer.attempt (.replace start stop t) = .error e' := hreplace
      rw [attempt_of_refused rfl hopen hattempt] at h
      cases h
      exact .buffer rfl hopen (Buffer.attempt_eq_error_iff.1 hattempt)
  | moveCursor id offset =>
    cases hnamed
    cases hmove : d.buffer.setCursor offset with
    | ok moved =>
      simp only [attempt, hbuffer, bind, Except.bind, hmove] at h
      cases h
    | error e' =>
      have hattempt : d.buffer.attempt (.setCursor offset) = .error e' := by
        rw [Buffer.attempt, hmove]
        rfl
      rw [attempt_of_refused rfl hopen hattempt] at h
      cases h
      exact .buffer rfl hopen (Buffer.attempt_eq_error_iff.1 hattempt)
  | _ => cases hnamed

/-- An operation fails if it is refused. -/
theorem attempt_eq_error_iff : s.attempt op = .error e ↔ s.Refuses op e := by
  constructor
  · intro h
    cases hnamed : op.document? with
    | some id =>
      cases hopen : s.document? id with
      | some d => exact refuses_of_attempt hnamed hopen h
      | none =>
        rw [attempt_of_notOpen hnamed hopen] at h
        cases h
        exact .notOpen hnamed hopen
    | none =>
      -- of the others only the opening of a file can fail
      cases op with
      | openFile path content? =>
        cases hread : Document.ofFile path content? with
        | ok d =>
          rw [attempt, hread] at h
          cases h
        | error e' =>
          rw [attempt, hread] at h
          cases h
          obtain ⟨hnone, rfl⟩ := ofFile_eq_error_iff.1 hread
          exact .unreadable hnone
      | activate id => cases hnamed
      | close id => cases hnamed
      | edit id start stop t => cases hnamed
      | moveCursor id offset => cases hnamed
      | _ => cases h
  · intro hrefuses
    cases hrefuses with
    | unreadable h => rw [attempt, ofFile_eq_error_iff.2 ⟨h, rfl⟩]
    | notOpen hnamed hclosed => exact attempt_of_notOpen hnamed hclosed
    | buffer hchange hopen h =>
      exact attempt_of_refused hchange hopen (Buffer.attempt_eq_error_iff.2 h)

end Session

end ClassHighlight
