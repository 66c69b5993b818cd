import ClassHighlight.Proofs.Session.Painting

/-!
# What an operation does when it succeeds

`Succeeds` lists for each operation what has to hold for it to succeed, and the session and effects
that it then gives. What is true after every operation follows from one case for each of these.
-/

namespace ClassHighlight

namespace Session

/-- An operation succeeds, with a new session and its effects. -/
inductive Succeeds (s : Session) : Operation → Session × Effects → Prop
  /-- A text can always be opened. -/
  | openText (text : Text) : Succeeds s (.openText text) (s.add (.ofText text))
  /-- A file can be opened if it can be read. -/
  | openFile {path : Text} {content? : Option ByteArray} {d : Document}
      (hread : Document.ofFile path content? = .ok d) :
      Succeeds s (.openFile path content?) (s.add d)
  /-- An open document can become the active one. -/
  | activate {id : DocumentId} {d : Document} (hopen : s.document? id = some d) :
      Succeeds s (.activate id) (s.makeActive id)
  /-- An open document can be closed. -/
  | close {id : DocumentId} {d : Document} (hopen : s.document? id = some d) :
      Succeeds s (.close id) (s.remove id)
  /-- An open document can be edited where its buffer allows it. -/
  | edit {id : DocumentId} {d : Document} {start stop : Nat} {text removed : Text}
      {edited : Buffer} (hopen : s.document? id = some d)
      (hedit : d.buffer.replace start stop text = .ok (edited, removed)) :
      Succeeds s (.edit id start stop text)
        ((s.setBuffer id edited).repaintIf (s.active? = some id))
  /-- The cursor of an open document can move where its buffer allows it. -/
  | moveCursor {id : DocumentId} {d : Document} {offset : Nat} {moved : Buffer}
      (hopen : s.document? id = some d) (hmove : d.buffer.setCursor offset = .ok moved) :
      Succeeds s (.moveCursor id offset)
        ((s.setBuffer id moved).repaintIf
          (decide (s.active? = some id ∧ s.config.mode = .cursor)))
  /-- The configuration can always be changed. -/
  | configure (config : Config) : Succeeds s (.configure config) (s.configure config)
  /-- Highlighting can always be turned on or off. -/
  | toggle :
      Succeeds s .toggle (s.configure { s.config with isEnabled := !s.config.isEnabled })
  /-- The mode can always be changed. -/
  | setMode (mode : Mode) : Succeeds s (.setMode mode) (s.configure { s.config with mode })
  /-- The preset can always be changed. -/
  | setPreset (preset : Text) :
      Succeeds s (.setPreset preset) (s.configure { s.config with preset })
  /-- The painting can always be made current. -/
  | rescan : Succeeds s .rescan s.repaint
  /-- A session can always be shut down. -/
  | shutdown : Succeeds s .shutdown s.clear

variable {s : Session}

/-- A document whose buffer is found is open. -/
theorem exists_of_buffer {id : DocumentId} {b : Buffer} (h : s.buffer id = .ok b) :
    ∃ d, s.document? id = some d ∧ b = d.buffer := by
  cases hd : s.document? id with
  | none =>
    rw [buffer_of_none hd] at h
    cases h
  | some d =>
    rw [buffer_of_some hd] at h
    cases h
    exact ⟨d, rfl, rfl⟩

theorem exists_of_bind {ε α β : Type} {x : Except ε α} {f : α → Except ε β} {b : β}
    (h : x >>= f = .ok b) : ∃ a, x = .ok a ∧ f a = .ok b := by
  cases x with
  | error e => cases h
  | ok a => exact ⟨a, rfl, h⟩

/-- An attempt that gives something is a success. -/
theorem succeeds_of_attempt {op : Operation} {next : Session} {effects : Effects}
    {outcome : Outcome} (h : s.attempt op = .ok (next, effects, outcome)) :
    s.Succeeds op (next, effects) := by
  cases op with
  | openText text =>
    cases h
    exact .openText text
  | openFile path content? =>
    cases hread : Document.ofFile path content? with
    | error e =>
      rw [attempt, hread] at h
      cases h
    | ok d =>
      rw [attempt, hread] at h
      cases h
      exact .openFile hread
  | activate id =>
    rw [attempt] at h
    rcases exists_of_bind h with ⟨b, hb, hrest⟩
    rcases exists_of_buffer hb with ⟨d, hopen, -⟩
    cases hrest
    exact .activate hopen
  | close id =>
    rw [attempt] at h
    rcases exists_of_bind h with ⟨b, hb, hrest⟩
    rcases exists_of_buffer hb with ⟨d, hopen, -⟩
    cases hrest
    exact .close hopen
  | edit id start stop text =>
    rw [attempt] at h
    rcases exists_of_bind h with ⟨b, hb, hrest⟩
    rcases exists_of_buffer hb with ⟨d, hopen, rfl⟩
    cases hedit : d.buffer.replace start stop text with
    | error e =>
      rw [hedit] at hrest
      cases hrest
    | ok edited =>
      rw [hedit] at hrest
      cases hrest
      exact .edit hopen hedit
  | moveCursor id offset =>
    rw [attempt] at h
    rcases exists_of_bind h with ⟨b, hb, hrest⟩
    rcases exists_of_buffer hb with ⟨d, hopen, rfl⟩
    cases hmove : d.buffer.setCursor offset with
    | error e =>
      rw [hmove] at hrest
      cases hrest
    | ok moved =>
      rw [hmove] at hrest
      cases hrest
      exact .moveCursor hopen hmove
  | configure config =>
    cases h
    exact .configure config
  | toggle =>
    cases h
    exact .toggle
  | setMode mode =>
    cases h
    exact .setMode mode
  | setPreset preset =>
    cases h
    exact .setPreset preset
  | rescan =>
    cases h
    exact .rescan
  | shutdown =>
    cases h
    exact .shutdown

/-- An operation fails and changes nothing, or it succeeds. -/
theorem perform_cases (s : Session) (op : Operation) :
    (∃ e, s.perform op = (s, .none, .error e)) ∨ ∃ next effects outcome,
      s.perform op = (next, effects, .ok outcome) ∧ s.Succeeds op (next, effects) := by
  cases hattempt : s.attempt op with
  | error e => exact Or.inl ⟨e, perform_of_error hattempt⟩
  | ok result =>
    rcases result with ⟨next, effects, outcome⟩
    right
    exact ⟨next, effects, outcome, perform_of_ok hattempt, succeeds_of_attempt hattempt⟩

end Session

end ClassHighlight
