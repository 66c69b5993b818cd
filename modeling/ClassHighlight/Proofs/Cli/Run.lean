import ClassHighlight.Cli.InPlace
import ClassHighlight.Proofs.Buffer.Lookup
import ClassHighlight.Proofs.Config.File
import ClassHighlight.Proofs.Paint.Painter
import ClassHighlight.Proofs.Session.InPlace

/-!
# The command line shows the scan

However the steps scan and paint on their way, what is printed is what one scan gives: of the
file's text, around the cursor, in the mode and the colors that were asked for. One document is open
throughout, and `Holds` says what is known of it and of the terminal between the steps.
-/

namespace ClassHighlight

/-! ## The cursor of a position -/

namespace Buffer

/-- The cursor can be moved to the offset of a position, and then has this offset. -/
theorem exists_setCursor_of_offsetOfPosition {b : Buffer} {p : Position} {offset : Nat}
    (h : b.offsetOfPosition p = .ok offset) :
    ∃ moved, b.setCursor offset = .ok moved ∧ moved.text = b.text ∧
      moved.cursorOffset = offset := by
  obtain ⟨index, hindex, rfl⟩ := offsetOfPosition_eq_ok h
  have hle : index ≤ b.text.length := Position.index?_le hindex
  have hfound : b.indexOfOffset (b.offsetOfIndex index) = .ok index := by
    have hbytes : b.offsetOfIndex index ≤ b.byteCount := Text.byteLength_take_le b.text index
    rw [indexOfOffset, if_pos hbytes, offsetOfIndex, Text.indexOfByte_byteLength_take hle]
  refine ⟨b.placeCursor index, ?_, rfl, ?_⟩
  · rw [setCursor, hfound]
    rfl
  · show Text.byteLength (b.text.take (min index b.text.length)) = _
    rw [Nat.min_eq_left hle]
    rfl

end Buffer

/-! ## Sessions with one document -/

namespace Session

theorem active?_repaint (s : Session) : s.repaint.1.active? = s.active? := by
  unfold repaint
  split <;> rfl

theorem config_repaint (s : Session) : s.repaint.1.config = s.config := by
  unfold repaint
  split <;> rfl

/-- The first document of a session is open and the active one, and the terminal has taken all that
it was asked for. -/
structure Holds (p : Progress) (config : Config) (d : Document) (t : Terminal) : Prop where
  /-- The document is open. -/
  document : p.session.document? 0 = some d
  /-- It is the active one. -/
  active : p.session.active? = some 0
  /-- The configuration is the given one. -/
  config : p.session.config = config
  /-- The terminal has refused nothing. -/
  accepted : Terminal.empty.performAll? p.effects.calls = some t
  /-- The overlay and the terminal agree. -/
  ready : p.session.IsReady t

section Holds

variable {p : Progress} {config : Config} {d : Document} {t : Terminal}

theorem Holds.highlights?_eq (h : Holds p config d t) (henabled : config.isEnabled = true) :
    p.session.highlights? =
      some (0, scan d.buffer.text (some d.buffer.cursorOffset) config.mode) := by
  rw [highlights?, h.config, if_pos henabled, h.active, Option.bind_some, h.document]
  rfl

/-- More calls that are not refused lead to the next terminal. -/
theorem Holds.accepted_after (h : Holds p config d t) {step : Session × Effects} {t' : Terminal}
    (hcalls : t.performAll? step.2.calls = some t') :
    Terminal.empty.performAll? (p.after step).effects.calls = some t' := by
  show Terminal.empty.performAll? (p.effects.calls ++ step.2.calls) = some t'
  rw [Terminal.performAll?_append, h.accepted]
  exact hcalls

/-- Painting keeps what is held, and then the terminal shows just the scan of the document, if
highlighting is on. -/
theorem Holds.repaint (h : Holds p config d t) :
    ∃ t', Holds (p.after p.session.repaint) config d t' ∧
      (config.isEnabled = true → t'.live = Decoration.all config.palette
        (scan d.buffer.text (some d.buffer.cursorOffset) config.mode)) := by
  obtain ⟨t', hcalls, hcurrent⟩ := h.ready.repaint
  have hconfig : p.session.repaint.1.config = config := by
    rw [config_repaint]
    exact h.config
  have hholds : Holds (p.after p.session.repaint) config d t' := by
    refine ⟨?_, ?_, hconfig, h.accepted_after hcalls, hcurrent.toIsReady⟩
    · show List.lookup 0 p.session.repaint.1.documents = some d
      rw [documents_repaint]
      exact h.document
    · rw [Progress.session_after, active?_repaint]
      exact h.active
  refine ⟨t', hholds, fun henabled => ?_⟩
  have hwanted := hholds.highlights?_eq henabled
  have hshows := hcurrent.awake rfl
  rw [Progress.session_after] at hwanted
  rw [shown?, hwanted, hconfig] at hshows
  exact hshows.live_eq

/-- A document that is opened first is held. -/
theorem holds_add (config : Config) (d : Document) :
    ∃ t, Holds (Progress.after ⟨start config, .none⟩ ((start config).add d)) config d t := by
  obtain ⟨t, hcalls, hcurrent⟩ := (isCurrent_start config).toIsReady.add d
  refine ⟨t, ?_, ?_, ?_, hcalls, hcurrent.toIsReady⟩
  · show List.lookup 0 (Session.repaint _).1.documents = some d
    rw [documents_repaint]
    rfl
  · exact active?_repaint _
  · exact config_repaint _

/-- A new buffer in the document is held. -/
theorem Holds.setBuffer (h : Holds p config d t) (b : Buffer) :
    Holds (p.after (p.session.setBuffer 0 b, .none)) config { d with buffer := b } t := by
  refine ⟨?_, h.active, h.config, h.accepted_after rfl, h.ready.setBuffer 0 b⟩
  rw [Progress.session_after, document?_setBuffer, h.document]
  rfl

/-- Moving the cursor keeps what is held, whether or not it repaints. -/
theorem Holds.moveCursor (h : Holds p config d t) (moved : Buffer) (needed : Bool) :
    ∃ t', Holds (p.after ((p.session.setBuffer 0 moved).repaintIf needed))
      config { d with buffer := moved } t' := by
  have hmoved := h.setBuffer moved
  cases needed with
  | false => exact ⟨t, hmoved⟩
  | true =>
    obtain ⟨t', hrepaint, -⟩ := hmoved.repaint
    rw [Progress.after_after] at hrepaint
    exact ⟨t', hrepaint⟩

end Holds

section Runs

variable (p : Progress)

/-- A run goes on from its first operation. -/
theorem Progress.after_run_cons (op : Operation) (ops : List Operation) :
    p.after (p.session.run (op :: ops)) =
      (p.after ((p.session.perform op).1, (p.session.perform op).2.1)).after
        ((p.session.perform op).1.run ops) := by
  rw [Progress.after_after]
  rfl

theorem Progress.after_run_singleton (op : Operation) :
    p.after (p.session.run [op]) =
      p.after ((p.session.perform op).1, (p.session.perform op).2.1) := by
  rw [after_run_cons]
  exact after_none _

/-- A run goes on from where the operations before it lead. -/
theorem Progress.after_run_append (first later : List Operation) :
    p.after (p.session.run (first ++ later)) =
      (p.after (p.session.run first)).after
        ((p.after (p.session.run first)).session.run later) := by
  induction first generalizing p with
  | nil => exact congrArg (fun q : Progress => q.after (q.session.run later)) p.after_none.symm
  | cons op ops ih =>
    have hnext := ih (p.after ((p.session.perform op).1, (p.session.perform op).2.1))
    rw [List.cons_append, after_run_cons, after_run_cons]
    exact hnext

end Runs

end Session

/-! ## The steps of a run -/

namespace Cli

open ClassHighlight.InPlace

/-- The offset of the cursor that is asked for: that of a position, or of the start. -/
def cursorAt (text : Text) : Option Position → Except BufferError Nat
  | some q => (Buffer.ofText text).raw.offsetOfPosition q
  | none => .ok 0

section Steps

variable {p : Session.Progress} {config : Config} {d : Document} {t : Terminal}

theorem offsetOfPosition_eq (d : Document) (q : Position) :
    d.buffer.offsetOfPosition q = cursorAt d.buffer.text (some q) := by
  rw [cursorAt, RawBuffer.offsetOfPosition_raw]
  rfl

/-- The cursor is moved once its position is found. -/
theorem cursorMoves_position (d : Document) (q : Position) :
    Preview.cursorMoves 0 d (some (.position q)) =
      (cursorAt d.buffer.text (some q)).map fun offset =>
        [Session.Operation.moveCursor 0 offset] := by
  rw [← offsetOfPosition_eq]
  show (do
    let offset ← d.buffer.offsetOfPosition q
    let _ ← d.buffer.setCursor offset
    return [Session.Operation.moveCursor 0 offset]) = _
  cases hoffset : d.buffer.offsetOfPosition q with
  | error e => rfl
  | ok offset =>
    obtain ⟨moved, hmoved, -⟩ := Buffer.exists_setCursor_of_offsetOfPosition hoffset
    simp only [bind, Except.bind, hmoved]
    rfl

theorem on_document (h : Session.Holds p config d t) :
    (InPlace.document 0).on p = (.ok d, p) := by
  rw [InPlace.document, on_bind, on_get]
  simp only [h.document, on_pure]

/-- The moves of the cursor put it where it is asked for. -/
theorem exists_cursorMoves {cursor? : Option Position} {offset : Nat}
    (hstart : d.buffer.cursorOffset = 0) (hcursor : cursorAt d.buffer.text cursor? = .ok offset)
    (h : Session.Holds p config d t) :
    ∃ moves moved p' t', Preview.cursorMoves 0 d (cursor?.map .position) = .ok moves ∧
      p.after (p.session.run moves) = p' ∧ moved.text = d.buffer.text ∧
      moved.cursorOffset = offset ∧ (InPlace.moveCursor 0 cursor?).on p = (.ok (), p') ∧
      Session.Holds p' config { d with buffer := moved } t' := by
  cases cursor? with
  | none =>
    cases hcursor
    exact ⟨[], d.buffer, p, t, rfl, p.after_none, rfl, hstart, rfl, h⟩
  | some q =>
    have hoffset := hcursor
    rw [← offsetOfPosition_eq] at hoffset
    obtain ⟨moved, hmoved, htext, hmovedOffset⟩ :=
      Buffer.exists_setCursor_of_offsetOfPosition hoffset
    have hfound := hoffset
    rw [← RawBuffer.offsetOfPosition_raw] at hfound
    have hon := Session.InPlace.on_moveCursor_of_ok h.document hmoved
    obtain ⟨t', hmoves⟩ := h.moveCursor moved
      (p.session.active? = some 0 ∧ p.session.config.mode = .cursor)
    refine ⟨[.moveCursor 0 offset], moved, _, t', ?_, ?_, htext, hmovedOffset, ?_, hmoves⟩
    · show Preview.cursorMoves 0 d (some (.position q)) = _
      rw [cursorMoves_position, hcursor]
      rfl
    · rw [Session.Progress.after_run_singleton, Session.perform_of_ok]
      simp only [Session.attempt, Session.buffer_of_some h.document, bind, Except.bind, hmoved]
      rfl
    · rw [InPlace.moveCursor, on_bind_of_ok (on_document h)]
      simp only [hfound]
      exact on_mapError_of_ok hon _

/-- A position that is not found ends the run where it is. -/
theorem on_moveCursor_of_error {cursor? : Option Position} {e : BufferError}
    (hcursor : cursorAt d.buffer.text cursor? = .error e) (h : Session.Holds p config d t) :
    ∃ q, cursor? = some q ∧ Preview.cursorMoves 0 d (cursor?.map .position) = .error e ∧
      (InPlace.moveCursor 0 cursor?).on p = (.error (.run (.cursor q)), p) := by
  cases cursor? with
  | none => cases hcursor
  | some q =>
    refine ⟨q, rfl, ?_, ?_⟩
    · show Preview.cursorMoves 0 d (some (.position q)) = _
      rw [cursorMoves_position, hcursor]
      rfl
    · rw [← offsetOfPosition_eq, ← RawBuffer.offsetOfPosition_raw] at hcursor
      rw [InPlace.moveCursor, on_bind_of_ok (on_document h)]
      simp only [hcursor, on_throw]

/-- The last scan is that of the document. -/
theorem on_rescan (h : Session.Holds p config d t) (henabled : config.isEnabled = true) :
    InPlace.rescan.on p =
      (.ok (scan d.buffer.text (some d.buffer.cursorOffset) config.mode),
        p.after p.session.repaint) := by
  have hrepaint := Session.InPlace.on_repaint p
  rw [h.highlights?_eq henabled, Option.map_some] at hrepaint
  rw [InPlace.rescan, on_bind_of_ok (on_mapError_of_ok hrepaint _), on_pure]

/-- The output is the preview of what the terminal shows. -/
theorem on_output (h : Session.Holds p config d t) (format : Format) (file : Text)
    (highlights : Highlights) :
    (InPlace.output format file d.buffer.text highlights).on p =
      (.ok (print format file config
        ⟨d.buffer.text, highlights, Terminal.empty.performAll p.effects.calls⟩), p) := by
  cases format with
  | ansi =>
    have hterminal : InPlace.terminal.on p =
        (.ok (Terminal.empty.performAll p.effects.calls), p) := rfl
    rw [InPlace.output, on_bind_of_ok hterminal]
    simp only [Terminal.render?_eq, on_pure]
    rfl
  | spans => rfl
  | json =>
    rw [InPlace.output, on_bind, on_get]
    simp only [on_pure, h.config]
    rfl

end Steps

/-! ## Whole runs -/

section Run

variable {file : Text} {a : Arguments} {content? : Option ByteArray} {config : Config}
  {d : Document}

theorem on_openFile (hfile : Document.ofFile file content? = .ok d) (config : Config) :
    (InPlace.openFile file content?).on ⟨.start config, .none⟩ =
      (.ok 0, Session.Progress.after ⟨.start config, .none⟩ ((Session.start config).add d)) := by
  unfold InPlace.openFile
  simp only [hfile]
  exact on_mapError_of_ok (Session.InPlace.on_add d _) _

/-- The session in which a document was just opened. -/
def opened (config : Config) (d : Document) : Session.Progress :=
  Session.Progress.after ⟨.start config, .none⟩ ((Session.start config).add d)

/-- The preview that is left when the moves and the last scan are done. -/
def previewAt (d : Document) (p : Session.Progress) : Preview :=
  ⟨d.buffer.text, (p.session.highlights?.map Prod.snd).getD .empty,
    Terminal.empty.performAll p.effects.calls⟩

/-- A preview is what is left after its moves and the last scan. -/
theorem ofFile_eq {place? : Option Place} {moves : List Session.Operation}
    (hfile : Document.ofFile file content? = .ok d) (henabled : config.isEnabled = true)
    (hmoves : Preview.cursorMoves 0 d place? = .ok moves) :
    Preview.ofFile config file content? place? = .ok (previewAt d
      ((opened config d).after ((opened config d).session.run (moves ++ [.rescan])))) := by
  have hconfig : { config with isEnabled := true } = config := by
    rw [← henabled]
  unfold Preview.ofFile Preview.ofDocument
  simp only [hfile, hconfig, hmoves, bind, Except.bind]
  rfl

/-- A file whose cursor is found is previewed as the scan around it, and the steps print that. -/
theorem exists_preview {offset : Nat} (hfile : Document.ofFile file content? = .ok d)
    (hstart : d.buffer.cursorOffset = 0) (henabled : config.isEnabled = true)
    (hcursor : cursorAt d.buffer.text a.cursor? = .ok offset) :
    ∃ preview, Preview.ofFile config file content? (a.cursor?.map .position) = .ok preview ∧
      preview.text = d.buffer.text ∧
      preview.highlights = scan d.buffer.text (some offset) config.mode ∧
      preview.terminal.live = Decoration.all config.palette preview.highlights ∧
      ((InPlace.highlight file a content?).on ⟨.start config, .none⟩).1 =
        .ok (print (a.format?.getD .ansi) file config preview) := by
  obtain ⟨t, hopened⟩ := Session.holds_add config d
  obtain ⟨moves, moved, p, t', hmoves, hp, htext, hoffset, honMove, hmoved⟩ :=
    exists_cursorMoves hstart hcursor hopened
  obtain ⟨last, hpainted, hlive⟩ := hmoved.repaint
  have honRescan := on_rescan hmoved henabled
  have hwanted := hpainted.highlights?_eq henabled
  simp only [htext, hoffset] at honRescan hwanted hlive
  have hterminal := Terminal.performAll_of_performAll? hpainted.accepted
  have honOutput := on_output hpainted (a.format?.getD .ansi) file
    (scan d.buffer.text (some offset) config.mode)
  rw [hterminal] at honOutput
  -- what was scanned last is what is to be painted at the end
  have hpreviewed : previewAt d (p.after p.session.repaint) =
      ⟨d.buffer.text, scan d.buffer.text (some offset) config.mode, last⟩ := by
    rw [previewAt, hwanted, hterminal]
    rfl
  refine ⟨⟨d.buffer.text, scan d.buffer.text (some offset) config.mode, last⟩, ?_, rfl, rfl,
    hlive henabled, ?_⟩
  · have hsteps : (opened config d).after ((opened config d).session.run (moves ++ [.rescan])) =
        p.after p.session.repaint := by
      rw [Session.Progress.after_run_append, opened, hp, Session.Progress.after_run_singleton]
      rfl
    rw [ofFile_eq hfile henabled hmoves, hsteps, hpreviewed]
  · simp only [htext] at honOutput
    rw [InPlace.highlight, on_bind_of_ok (on_openFile hfile config), on_bind_of_ok honMove,
      on_bind_of_ok honRescan, on_bind_of_ok (on_document hpainted)]
    simp only [htext]
    rw [on_bind_of_ok honOutput,
      on_bind_of_ok (on_mapError_of_ok (Session.InPlace.on_clear _) _), on_pure]

/-- If the cursor is not found, neither the preview nor the steps come to an end. -/
theorem exists_of_cursorAt_eq_error {e : BufferError}
    (hfile : Document.ofFile file content? = .ok d)
    (hcursor : cursorAt d.buffer.text a.cursor? = .error e) (config : Config) :
    ∃ q, a.cursor? = some q ∧
      Preview.ofFile config file content? (a.cursor?.map .position) = .error (.cursor e) ∧
      ((InPlace.highlight file a content?).on ⟨.start config, .none⟩).1 =
        .error (.run (.cursor q)) := by
  obtain ⟨t, hopened⟩ := Session.holds_add config d
  obtain ⟨q, hq, hmoves, honMove⟩ := on_moveCursor_of_error hcursor hopened
  refine ⟨q, hq, ?_, ?_⟩
  · unfold Preview.ofFile Preview.ofDocument
    simp only [hfile, hmoves, bind, Except.bind]
    rfl
  · rw [InPlace.highlight, on_bind_of_ok (on_openFile hfile config), on_bind_of_error honMove]

end Run

/-- The configuration to highlight under: the stored one with highlighting on, and the options in
place of what they stand for. -/
def withOptions (a : Arguments) (stored : Config) : Config :=
  { stored with
    isEnabled := true
    mode := a.mode?.getD stored.mode
    preset := a.preset?.getD stored.preset }

/-- The stored configuration, if it can be loaded: the file that was asked for must hold one. -/
def stored? (a : Arguments) (config? : Option ByteArray) : Option Config :=
  match a.config? with
  | some _ => (Config.load config?).toOption
  | none => some (Config.loadDefault config?)

/-- A file is highlighted under a configuration with its options if one can be loaded. -/
theorem configFor_eq_ok_iff {a : Arguments} {config? : Option ByteArray} {config : Config} :
    configFor a config? = .ok config ↔
      ∃ stored, stored? a config? = some stored ∧ withOptions a stored = config := by
  unfold configFor stored?
  cases a.config? with
  | none =>
    constructor
    · intro h
      cases h
      exact ⟨_, rfl, rfl⟩
    · rintro ⟨stored, h, rfl⟩
      cases h
      rfl
  | some path =>
    cases Config.load config? with
    | error e =>
      constructor
      · intro h
        cases h
      · rintro ⟨stored, h, -⟩
        cases h
    | ok c =>
      constructor
      · intro h
        cases h
        exact ⟨c, rfl, rfl⟩
      · rintro ⟨stored, h, rfl⟩
        cases h
        rfl

/-- A file that is read is a document with its text and the cursor at the start. -/
theorem ofFile_of_text {content? : Option ByteArray} {text : Text}
    (h : content?.bind Text.ofBytes? = some text) (file : Text) :
    ∃ d, Document.ofFile file content? = .ok d ∧ d.buffer.text = text ∧
      d.buffer.cursorOffset = 0 := by
  refine ⟨⟨Document.fileName file, { Buffer.ofText text with path? := some file }⟩, ?_, rfl, rfl⟩
  rw [Document.ofFile, Buffer.ofFile, h]
  rfl

/-- A file that cannot be read is not opened. -/
theorem ofFile_of_no_text {content? : Option ByteArray}
    (h : content?.bind Text.ofBytes? = none) (file : Text) :
    Document.ofFile file content? = .error .unreadable := by
  rw [Document.ofFile, Buffer.ofFile, h]
  rfl

/-- Done step by step, highlighting a file gives what is printed for it, and no other errors. -/
theorem highlightInPlace_eq (file : Text) (a : Arguments) (config? content? : Option ByteArray) :
    highlightInPlace file a config? content? =
      (highlight file a config? content?).mapError .run := by
  unfold highlightInPlace highlight
  cases hconfig : configFor a config? with
  | error e => rfl
  | ok config =>
    have henabled : config.isEnabled = true := by
      obtain ⟨stored, -, rfl⟩ := configFor_eq_ok_iff.mp hconfig
      rfl
    cases htext : content?.bind Text.ofBytes? with
    | none =>
      have hfile := ofFile_of_no_text htext file
      have hopen : (InPlace.openFile file content?).on ⟨.start config, .none⟩ =
          (.error (.run (.file file)), ⟨.start config, .none⟩) := by
        unfold InPlace.openFile
        simp only [hfile, on_throw]
      have hpreview : Preview.ofFile config file content? (a.cursor?.map .position) =
          .error (.opening .unreadable) := by
        unfold Preview.ofFile
        simp only [hfile]
      simp only [bind, Except.bind, hpreview]
      rw [InPlace.highlight, on_bind_of_error hopen]
      rfl
    | some text =>
      obtain ⟨d, hfile, hd, hstart⟩ := ofFile_of_text htext file
      cases hcursor : cursorAt d.buffer.text a.cursor? with
      | error e =>
        obtain ⟨q, hq, hpreview, hon⟩ := exists_of_cursorAt_eq_error hfile hcursor config
        rw [hq] at hpreview
        simp only [bind, Except.bind, hon, hq, hpreview]
        rfl
      | ok offset =>
        obtain ⟨preview, hpreview, -, -, -, hon⟩ := exists_preview hfile hstart henabled hcursor
        simp only [bind, Except.bind, hpreview, hon]
        rfl

/-! ## The scan is shown -/

/-- The cursor is found if there is none, or if its position is. -/
theorem exists_cursorAt_iff (text : Text) (cursor? : Option Position) :
    (∃ offset, cursorAt text cursor? = .ok offset) ↔
      ∀ p, cursor? = some p →
        ∃ offset, (Buffer.ofText text).raw.offsetOfPosition p = .ok offset := by
  cases cursor? with
  | none => exact ⟨fun _ => nofun, fun _ => ⟨0, rfl⟩⟩
  | some q =>
    constructor
    · rintro hfound p hp
      cases hp
      exact hfound
    · intro haccepted
      exact haccepted q rfl

/-- Decorations that were created and painted once, on a terminal that painted nothing else. -/
theorem live_fresh (palette : Palette) (h : Highlights) :
    (Terminal.mk (Category.all.map fun c =>
      some ⟨c, Style.ofCategory palette c, h.get c⟩)).live = Decoration.all palette h := rfl

section Shown

variable {file : Text} {a : Arguments} {config? content? : Option ByteArray} {stored : Config}
  {text : Text}

/-- Highlighting runs in a session under the configuration with its options. -/
theorem highlightInPlace_of_stored (hstored : stored? a config? = some stored) :
    highlightInPlace file a config? content? =
      ((InPlace.highlight file a content?).on ⟨.start (withOptions a stored), .none⟩).1 := by
  unfold highlightInPlace
  rw [configFor_eq_ok_iff.mpr ⟨stored, hstored, rfl⟩]

/-- If the cursor is found, the scan around it is printed, which the terminal shows too. -/
theorem exists_printed (hstored : stored? a config? = some stored)
    (htext : content?.bind Text.ofBytes? = some text) {offset : Nat}
    (hcursor : cursorAt text a.cursor? = .ok offset) :
    ∃ terminal : Terminal,
      terminal.live = Decoration.all (withOptions a stored).palette
        (scan text (some offset) (withOptions a stored).mode) ∧
      highlightInPlace file a config? content? =
        .ok (print (a.format?.getD .ansi) file (withOptions a stored)
          ⟨text, scan text (some offset) (withOptions a stored).mode, terminal⟩) := by
  obtain ⟨d, hfile, rfl, hstart⟩ := ofFile_of_text htext file
  have henabled : (withOptions a stored).isEnabled = true := rfl
  obtain ⟨⟨shown, highlights, terminal⟩, -, htext', hscan, hlive, hrun⟩ :=
    exists_preview hfile hstart henabled hcursor
  cases htext'
  cases hscan
  exact ⟨terminal, hlive, (highlightInPlace_of_stored hstored).trans hrun⟩

/-- If the cursor is not found, nothing is printed. -/
theorem exists_refused (hstored : stored? a config? = some stored)
    (htext : content?.bind Text.ofBytes? = some text) {e : BufferError}
    (hcursor : cursorAt text a.cursor? = .error e) :
    ∃ q, highlightInPlace file a config? content? = .error (.run (.cursor q)) := by
  obtain ⟨d, hfile, rfl, -⟩ := ofFile_of_text htext file
  obtain ⟨q, -, -, hrun⟩ := exists_of_cursorAt_eq_error hfile hcursor (withOptions a stored)
  exact ⟨q, (highlightInPlace_of_stored hstored).trans hrun⟩

end Shown

/-- A file that can be read is highlighted under a configuration that can be loaded unless it has no
such position as the cursor's, whether or not highlighting is on in the configuration. Its text is
then scanned around the cursor, or the start, in the mode of the options or the stored one. The
spans of this scan are listed, or reported, or they are what a terminal renders that never painted
anything else, in the colors of the options' preset, or the stored one, with the stored overrides.
-/
theorem highlight_shows_scan (file : Text) (a : Arguments) {config? content? : Option ByteArray}
    {stored : Config} {text : Text} (hstored : stored? a config? = some stored)
    (htext : content?.bind Text.ofBytes? = some text) :
    ((∃ out, highlightInPlace file a config? content? = .ok out) ↔
      ∀ p, a.cursor? = some p →
        ∃ offset, (Buffer.ofText text).raw.offsetOfPosition p = .ok offset) ∧
    ∀ offset, cursorAt text a.cursor? = .ok offset →
      let mode := a.mode?.getD stored.mode
      let preset := a.preset?.getD stored.preset
      let palette := Palette.resolve preset stored.overrides
      let r := scan text (some offset) mode
      ∃ out, highlightInPlace file a config? content? = .ok out ∧
        match a.format?.getD .ansi with
        | .ansi =>
          (Terminal.mk (Category.all.map fun c =>
            some ⟨c, Style.ofCategory palette c, r.get c⟩)).render? text = some out
        | .spans => out = r.list text
        | .json =>
          out = (JsonValue.object [("file".toList, .string file), ("mode".toList, mode.toJson),
            ("preset".toList, .string preset),
            ("highlights".toList, r.toJson)]).write ++ ['\n'] := by
  refine ⟨?_, ?_⟩
  · rw [← exists_cursorAt_iff]
    constructor
    · rintro ⟨out, hout⟩
      cases hcursor : cursorAt text a.cursor? with
      | ok offset => exact ⟨offset, rfl⟩
      | error e =>
        obtain ⟨q, hrefused⟩ := exists_refused hstored htext hcursor
        rw [hrefused] at hout
        cases hout
    · rintro ⟨offset, hcursor⟩
      obtain ⟨terminal, -, hout⟩ := exists_printed hstored htext hcursor
      exact ⟨_, hout⟩
  · intro offset hcursor mode preset palette r
    obtain ⟨terminal, hlive, hout⟩ := exists_printed hstored htext hcursor
    refine ⟨_, hout, ?_⟩
    cases a.format?.getD .ansi with
    | ansi =>
      rw [Terminal.render?_eq]
      exact congrArg some (Terminal.render_congr ((live_fresh palette r).trans hlive.symm) text)
    | spans => rfl
    | json => rfl

/-- A stored configuration in which highlighting is off. -/
def plain : Config := ⟨false, .full, "Soft".toList, ⟨none, some "#ff0055".toList, none, none⟩⟩

/-- The tag of an element with one class. -/
def tag : Text := "<p class=\"!p-2\">".toList

/-- Under a configuration in which highlighting is off, the class around the cursor is listed. -/
theorem highlight_shows_scan_listed :
    stored? { Arguments.empty with config? := some "prism.toml".toList } (some plain.save) =
        some plain ∧
      (some (Text.encode tag)).bind Text.ofBytes? = some tag ∧
      highlightInPlace "page.html".toList
          { Arguments.empty with
            config? := some "prism.toml".toList
            mode? := some .cursor
            cursor? := some ⟨0, 11⟩
            format? := some .spans }
          (some plain.save) (some (Text.encode tag)) =
        .ok ((scan tag (some 11) .cursor).list tag) ∧
      (scan tag (some 11) .cursor).get .important = [⟨10, 11⟩] := by
  have hstored : stored? { Arguments.empty with config? := some "prism.toml".toList }
      (some plain.save) = some plain := by
    show (Config.load (some plain.save)).toOption = _
    rw [Config.save, Config.load_encode, Config.read_write]
    rfl
  have htext : (some (Text.encode tag)).bind Text.ofBytes? = some tag := by
    rw [Option.bind_some, Text.ofBytes?_encode]
  refine ⟨hstored, htext, ?_, by decide +kernel⟩
  obtain ⟨out, hout, hlisted⟩ := (highlight_shows_scan "page.html".toList
    { Arguments.empty with
      config? := some "prism.toml".toList
      mode? := some .cursor
      cursor? := some ⟨0, 11⟩
      format? := some .spans } hstored htext).2 11 rfl
  rw [hout, hlisted]
  rfl

end Cli

end ClassHighlight
