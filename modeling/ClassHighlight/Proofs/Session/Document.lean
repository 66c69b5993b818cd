import Mathlib.Data.List.Induction
import ClassHighlight.Proofs.Session.Refusal

/-!
# What operations do to the documents

An operation opens one document, closes one, changes the buffer of one, or keeps all as they were.
So every document keeps a number of its own, and what is left of a document depends on nothing but
the document and the operation.
-/

namespace ClassHighlight

namespace Session

variable {s : Session} {id : DocumentId}

/-! ## What happens to the documents -/

/-- Whether an operation closes a document. -/
def Operation.closes (id : DocumentId) : Operation → Bool
  | .close other => other == id
  | _ => false

/-- The changes of the buffer of a document that operations ask for, in their order. -/
def changesOf (id : DocumentId) (ops : List Operation) : List Buffer.Operation :=
  ((ops.filterMap Operation.change?).filter fun change => change.1 == id).map Prod.snd

/-- The buffer of an open document. -/
def rawBuffer? (s : Session) (id : DocumentId) : Option RawBuffer :=
  (s.document? id).map fun d => d.buffer.raw

theorem changesOf_append (id : DocumentId) (first later : List Operation) :
    changesOf id (first ++ later) = changesOf id first ++ changesOf id later := by
  unfold changesOf
  rw [List.filterMap_append, List.filter_append, List.map_append]

/-- What asks for no change changes nothing. -/
theorem changesOf_of_none {op : Operation} (h : op.change? = none) : changesOf id [op] = [] := by
  unfold changesOf
  rw [List.filterMap_cons_none h]
  rfl

theorem changesOf_of_some {op : Operation} {named : DocumentId} {change : Buffer.Operation}
    (h : op.change? = some (named, change)) :
    changesOf id [op] = if named = id then [change] else [] := by
  unfold changesOf
  rw [List.filterMap_cons_some h]
  by_cases hid : named = id <;> simp [hid]

/-- The documents that are open after an operation. One is opened, closed or changed, or all are
kept as they were. -/
inductive Leaves (s : Session) (op : Operation) : List (DocumentId × Document) → Nat → Prop
  /-- The operation opens a document, under the number that is given next. -/
  | opens {d : Document} (hfresh : op.fresh? = some d.buffer.raw) :
      Leaves s op (s.documents ++ [(s.opened, d)]) (s.opened + 1)
  /-- It closes a document. -/
  | closes {id : DocumentId} (hclose : op = .close id) :
      Leaves s op (s.without id).documents s.opened
  /-- It changes the buffer of a document. -/
  | changes {id : DocumentId} {change : Buffer.Operation} {d : Document} {b : Buffer}
      (hchange : op.change? = some (id, change)) (hopen : s.document? id = some d)
      (hperform : d.buffer.perform change = b) :
      Leaves s op (s.setBuffer id b).documents s.opened
  /-- It asks for none of these. -/
  | keeps (hfresh : op.fresh? = none) (hcloses : ∀ id, op.closes id = false)
      (hchange : op.change? = none) : Leaves s op s.documents s.opened
  /-- It fails. -/
  | fails {e : SessionError} (hrefuses : s.Refuses op e) : Leaves s op s.documents s.opened

/-! ## What is left of the documents by each operation -/

theorem documents_repaint (s : Session) : s.repaint.1.documents = s.documents := by
  unfold repaint
  split <;> rfl

theorem opened_repaint (s : Session) : s.repaint.1.opened = s.opened := by
  unfold repaint
  split <;> rfl

theorem documents_repaintIf (s : Session) (needed : Bool) :
    (s.repaintIf needed).1.documents = s.documents := by
  cases needed with
  | true => exact s.documents_repaint
  | false => rfl

theorem opened_repaintIf (s : Session) (needed : Bool) :
    (s.repaintIf needed).1.opened = s.opened := by
  cases needed with
  | true => exact s.opened_repaint
  | false => rfl

theorem documents_remove (s : Session) (id : DocumentId) :
    (s.remove id).1.documents = (s.without id).documents := by
  unfold remove
  split <;> rfl

theorem opened_remove (s : Session) (id : DocumentId) : (s.remove id).1.opened = s.opened := by
  unfold remove
  split <;> rfl

/-- Opening a document adds it. -/
theorem leaves_add {op : Operation} {d : Document} (hfresh : op.fresh? = some d.buffer.raw) :
    s.Leaves op (s.add d).1.documents (s.add d).1.opened := by
  have hdocuments : (s.add d).1.documents = s.documents ++ [(s.opened, d)] :=
    documents_repaint { s.withDocument d with active? := some s.opened }
  have hopened : (s.add d).1.opened = s.opened + 1 :=
    opened_repaint { s.withDocument d with active? := some s.opened }
  rw [hdocuments, hopened]
  exact .opens hfresh

/-- Painting keeps the documents. -/
theorem leaves_repaint {op : Operation} (next : Session) (hdocuments : next.documents = s.documents)
    (hopened : next.opened = s.opened) (hfresh : op.fresh? = none)
    (hcloses : ∀ id, op.closes id = false) (hchange : op.change? = none) :
    s.Leaves op next.repaint.1.documents next.repaint.1.opened := by
  rw [documents_repaint, opened_repaint, hdocuments, hopened]
  exact .keeps hfresh hcloses hchange

/-- A buffer is changed where it is. -/
theorem leaves_setBuffer {op : Operation} {change : Buffer.Operation} {d : Document} {b : Buffer}
    (hchange : op.change? = some (id, change)) (hopen : s.document? id = some d)
    (hperform : d.buffer.perform change = b) (needed : Bool) :
    s.Leaves op ((s.setBuffer id b).repaintIf needed).1.documents
      ((s.setBuffer id b).repaintIf needed).1.opened := by
  rw [documents_repaintIf, opened_repaintIf]
  exact .changes hchange hopen hperform

theorem fresh?_of_ofFile {path : Text} {content? : Option ByteArray} {d : Document}
    (h : Document.ofFile path content? = .ok d) :
    (Operation.openFile path content?).fresh? = some d.buffer.raw := by
  unfold Document.ofFile Buffer.ofFile at h
  show (content?.bind Text.ofBytes?).map (fun t => RawBuffer.fresh t (some path)) = _
  cases hread : content?.bind Text.ofBytes? with
  | none =>
    rw [hread] at h
    cases h
  | some t =>
    rw [hread] at h
    cases h
    rfl

/-- Every operation that succeeds opens, closes, changes or keeps the documents. -/
theorem Succeeds.leaves {op : Operation} {step : Session × Effects} (h : s.Succeeds op step) :
    s.Leaves op step.1.documents step.1.opened := by
  cases h with
  | openText text => exact leaves_add rfl
  | openFile hread => exact leaves_add (fresh?_of_ofFile hread)
  | activate hopen => exact leaves_repaint _ rfl rfl rfl (fun _ => rfl) rfl
  | close hopen =>
    rw [documents_remove, opened_remove]
    exact .closes rfl
  | edit hopen hedit =>
    refine leaves_setBuffer rfl hopen ?_ _
    simp only [Buffer.perform, Buffer.attempt, hedit]
  | moveCursor hopen hmove =>
    refine leaves_setBuffer rfl hopen ?_ _
    simp only [Buffer.perform, Buffer.attempt, hmove, Except.map]
  | configure config => exact leaves_repaint _ rfl rfl rfl (fun _ => rfl) rfl
  | toggle => exact leaves_repaint _ rfl rfl rfl (fun _ => rfl) rfl
  | setMode mode => exact leaves_repaint _ rfl rfl rfl (fun _ => rfl) rfl
  | setPreset preset => exact leaves_repaint _ rfl rfl rfl (fun _ => rfl) rfl
  | rescan => exact leaves_repaint _ rfl rfl rfl (fun _ => rfl) rfl
  | shutdown => exact .keeps rfl (fun _ => rfl) rfl

/-- So does every operation that fails. -/
theorem leaves_perform (s : Session) (op : Operation) :
    s.Leaves op (s.perform op).1.documents (s.perform op).1.opened := by
  cases hattempt : s.attempt op with
  | error e =>
    rw [perform_of_error hattempt]
    exact .fails (attempt_eq_error_iff.1 hattempt)
  | ok result =>
    rcases result with ⟨next, effects, outcome⟩
    rw [perform_of_ok hattempt]
    exact (succeeds_of_attempt hattempt).leaves

/-! ## Numbers -/

/-- Every open document has a number of its own, below the one that is given next. -/
structure IsNumbered (documents : List (DocumentId × Document)) (opened : Nat) : Prop where
  /-- Every number was given. -/
  below : ∀ id ∈ documents.map Prod.fst, id < opened
  /-- No two documents have the same one. -/
  distinct : (documents.map Prod.fst).Nodup

theorem isNumbered_nil (opened : Nat) : IsNumbered [] opened :=
  ⟨fun _ hid => absurd hid List.not_mem_nil, List.nodup_nil⟩

section Step

variable {op : Operation} {documents : List (DocumentId × Document)} {opened : Nat}

/-- The number that is given next is in use by no document. -/
theorem document?_opened (hs : IsNumbered s.documents s.opened) : s.document? s.opened = none := by
  unfold document?
  rw [List.lookup_eq_none_iff]
  intro entry hentry
  have hlt := hs.below entry.1 (List.mem_map_of_mem hentry)
  exact bne_iff_ne.2 (Nat.ne_of_gt hlt)

/-- Whatever an operation leaves is numbered. -/
theorem Leaves.isNumbered (h : s.Leaves op documents opened)
    (hs : IsNumbered s.documents s.opened) : IsNumbered documents opened := by
  cases h with
  | opens hfresh =>
    constructor
    · intro id hid
      rw [List.map_append] at hid
      rcases List.mem_append.1 hid with hold | hnew
      · exact Nat.lt_succ_of_lt (hs.below id hold)
      · rw [List.mem_singleton.1 hnew]
        exact Nat.lt_succ_self _
    · rw [List.map_append]
      refine List.nodup_append.2 ⟨hs.distinct, List.pairwise_singleton _ _, ?_⟩
      -- the new number is above all that are in use
      intro id hid new hnew
      rw [List.mem_singleton.1 hnew]
      exact Nat.ne_of_lt (hs.below id hid)
  | @closes id hclose =>
    have hsublist : ((s.without id).documents.map Prod.fst).Sublist (s.documents.map Prod.fst) :=
      List.filter_sublist.map Prod.fst
    exact ⟨fun id hid => hs.below id (hsublist.subset hid), hs.distinct.sublist hsublist⟩
  | changes hchange hopen hperform =>
    constructor
    · rw [map_fst_setBuffer]
      exact hs.below
    · rw [map_fst_setBuffer]
      exact hs.distinct
  | keeps hfresh hcloses hchange => exact hs
  | fails hrefuses => exact hs

/-! ## What is left of one document -/

/-- What opens a document neither closes nor changes one. -/
theorem quiet_of_fresh? {b : RawBuffer} (h : op.fresh? = some b) :
    (∀ id, op.closes id = false) ∧ op.change? = none := by
  cases op with
  | openText t => exact ⟨fun _ => rfl, rfl⟩
  | openFile path content? => exact ⟨fun _ => rfl, rfl⟩
  | _ => cases h

/-- What changes a document neither opens nor closes one. -/
theorem quiet_of_change? {change : DocumentId × Buffer.Operation} (h : op.change? = some change) :
    op.fresh? = none ∧ ∀ id, op.closes id = false := by
  cases op with
  | edit id start stop t => exact ⟨rfl, fun _ => rfl⟩
  | moveCursor id offset => exact ⟨rfl, fun _ => rfl⟩
  | _ => cases h

/-- The document that is changed has to be open. -/
theorem document?_of_change? {named : DocumentId} {change : Buffer.Operation}
    (h : op.change? = some (named, change)) : op.document? = some named := by
  cases op with
  | edit id start stop t =>
    cases h
    rfl
  | moveCursor id offset =>
    cases h
    rfl
  | _ => cases h

/-- What names another document, or none, does nothing to a document. -/
theorem quiet_of_document? (h : op.document? ≠ some id) :
    op.closes id = false ∧ changesOf id [op] = [] := by
  cases op with
  | close named =>
    have hne : named ≠ id := fun heq => h (congrArg some heq)
    exact ⟨beq_false_of_ne hne, rfl⟩
  | edit named start stop t =>
    have hne : named ≠ id := fun heq => h (congrArg some heq)
    exact ⟨rfl, by rw [changesOf_of_some rfl, if_neg hne]⟩
  | moveCursor named offset =>
    have hne : named ≠ id := fun heq => h (congrArg some heq)
    exact ⟨rfl, by rw [changesOf_of_some rfl, if_neg hne]⟩
  | _ => exact ⟨rfl, rfl⟩

/-- What an operation leaves of the buffer of an open document, unless it closes the document. -/
def keptBuffer? (s : Session) (op : Operation) (id : DocumentId) : Option RawBuffer :=
  if op.closes id then none else (s.rawBuffer? id).map fun b => b.run (changesOf id [op])

theorem keptBuffer?_of_quiet (hcloses : op.closes id = false) (hchanges : changesOf id [op] = []) :
    s.keptBuffer? op id = s.rawBuffer? id := by
  unfold keptBuffer?
  rw [hcloses, hchanges]
  exact Option.map_id'

theorem keptBuffer?_eq_some_iff {b : RawBuffer} :
    s.keptBuffer? op id = some b ↔ op.closes id = false ∧
      ∃ before, s.rawBuffer? id = some before ∧ before.run (changesOf id [op]) = b := by
  unfold keptBuffer?
  cases op.closes id with
  | true => simp
  | false => simp

/-- A document is changed by the operation that names it and by no other. -/
theorem rawBuffer?_setBuffer {change : Buffer.Operation} {d : Document} {named : DocumentId}
    (hchange : op.change? = some (named, change)) (hopen : s.document? named = some d)
    (id : DocumentId) :
    (s.setBuffer named (d.buffer.perform change)).rawBuffer? id = s.keptBuffer? op id := by
  have hraw : (d.buffer.perform change).raw = d.buffer.raw.run [change] :=
    (d.buffer.run_raw [change]).symm
  unfold keptBuffer? rawBuffer?
  rw [document?_setBuffer, changesOf_of_some hchange, (quiet_of_change? hchange).2 id]
  by_cases hid : named = id
  · rw [← hid, hopen]
    simp [hraw]
  · have hne : id ≠ named := Ne.symm hid
    cases s.document? id <;> simp [hid, hne, RawBuffer.run]

/-- What fails changes no document that is open. -/
theorem keptBuffer?_of_refuses {e : SessionError} (h : s.Refuses op e) (id : DocumentId) :
    s.keptBuffer? op id = s.rawBuffer? id := by
  by_cases hnamed : op.document? = some id
  · cases h with
    | unreadable h => cases hnamed
    | notOpen hnamed' hclosed =>
      -- there is no such document, and so nothing of it is left
      rw [hnamed] at hnamed'
      cases hnamed'
      unfold keptBuffer? rawBuffer?
      rw [hclosed]
      exact ite_self _
    | buffer hchange hopen h =>
      rw [document?_of_change? hchange] at hnamed
      cases hnamed
      have hkept := congrArg Prod.snd (RawBuffer.on_perform_eq_error_iff.2 ⟨h, rfl⟩)
      unfold keptBuffer? rawBuffer?
      rw [(quiet_of_change? hchange).2, changesOf_of_some hchange, if_pos rfl, hopen]
      exact congrArg some hkept
  · obtain ⟨hcloses, hchanges⟩ := quiet_of_document? hnamed
    exact keptBuffer?_of_quiet hcloses hchanges

/-- What fails opens no document. -/
theorem fresh?_of_refuses {e : SessionError} (h : s.Refuses op e) : op.fresh? = none := by
  cases h with
  | unreadable h =>
    show (Option.bind _ Text.ofBytes?).map _ = none
    rw [h]
    rfl
  | notOpen hnamed hclosed =>
    cases op with
    | openText t => cases hnamed
    | openFile path content? => cases hnamed
    | _ => rfl
  | buffer hchange hopen h => exact (quiet_of_change? hchange).1

/-- A document that is closed is not open, and the others are as they were. -/
theorem lookup_without (s : Session) (named id : DocumentId) :
    (s.without named).documents.lookup id =
      if id = named then none else s.documents.lookup id := by
  by_cases hid : id = named
  · rw [if_pos hid]
    apply List.lookup_eq_none_iff.2
    intro entry hentry
    have hkept := (List.mem_filter.1 hentry).2
    rw [bne_comm, hid]
    exact hkept
  · rw [if_neg hid]
    exact document?_filter hid s.documents

/-- The number that is given next is that of the document that is opened, if one is. -/
theorem Leaves.lookup_opened (h : s.Leaves op documents opened)
    (hs : IsNumbered s.documents s.opened) :
    (documents.lookup s.opened).map (fun d => d.buffer.raw) = op.fresh? := by
  have hnone : s.documents.lookup s.opened = none := document?_opened hs
  cases h with
  | @opens d hfresh =>
    rw [List.lookup_append, hnone, List.lookup_cons_self, Option.none_or, hfresh]
    rfl
  | closes hclose =>
    rw [lookup_without, hnone, ite_self, hclose]
    rfl
  | @changes named change d b hchange hopen hperform =>
    show ((s.setBuffer named b).document? s.opened).map _ = _
    rw [document?_setBuffer, document?_opened hs, (quiet_of_change? hchange).1]
    rfl
  | keeps hfresh hcloses hchange =>
    rw [hnone, hfresh]
    rfl
  | fails hrefuses =>
    rw [hnone, fresh?_of_refuses hrefuses]
    rfl

/-- What is left of a document with any other number. -/
theorem Leaves.lookup_of_ne (h : s.Leaves op documents opened) (hne : id ≠ s.opened) :
    (documents.lookup id).map (fun d => d.buffer.raw) = s.keptBuffer? op id := by
  cases h with
  | @opens d hfresh =>
    obtain ⟨hcloses, hchange⟩ := quiet_of_fresh? hfresh
    have hlookup : (s.documents ++ [(s.opened, d)]).lookup id = s.document? id := by
      rw [List.lookup_append, List.lookup_cons, beq_false_of_ne hne]
      exact Option.or_none
    rw [hlookup, keptBuffer?_of_quiet (hcloses id) (changesOf_of_none hchange)]
    rfl
  | @closes named hclose =>
    rw [lookup_without, hclose]
    by_cases hid : id = named
    · unfold keptBuffer?
      rw [if_pos hid, if_pos]
      · rfl
      · exact beq_iff_eq.2 hid.symm
    · have hquiet : (Operation.close named).document? ≠ some id := by
        intro heq
        exact hid (Option.some.inj heq).symm
      rw [if_neg hid, keptBuffer?_of_quiet (quiet_of_document? hquiet).1 rfl]
      rfl
  | changes hchange hopen hperform =>
    rw [← hperform]
    exact rawBuffer?_setBuffer hchange hopen id
  | keeps hfresh hcloses hchange =>
    exact (keptBuffer?_of_quiet (hcloses id) (changesOf_of_none hchange)).symm
  | fails hrefuses => exact (keptBuffer?_of_refuses hrefuses id).symm

/-- What is left of each document after an operation, and of the one that it may have opened. -/
theorem rawBuffer?_perform (hs : IsNumbered s.documents s.opened) (op : Operation)
    (id : DocumentId) :
    (s.perform op).1.rawBuffer? id =
      if id = s.opened then op.fresh? else s.keptBuffer? op id := by
  have hleaves := s.leaves_perform op
  by_cases hid : id = s.opened
  · rw [if_pos hid, hid]
    exact hleaves.lookup_opened hs
  · rw [if_neg hid]
    exact hleaves.lookup_of_ne hid

/-- The number of the document that is opened is given back. -/
theorem outcome_of_fresh? {fresh : RawBuffer} (h : op.fresh? = some fresh) :
    (s.perform op).2.2 = .ok (.opened s.opened) := by
  cases op with
  | openText t => rfl
  | openFile path content? =>
    cases hread : Document.ofFile path content? with
    | ok d => rw [perform, attempt, hread]
    | error e =>
      have hrefuses : s.Refuses (.openFile path content?) (.buffer e) := by
        apply attempt_eq_error_iff.1
        rw [attempt, hread]
      rw [fresh?_of_refuses hrefuses] at h
      cases h
  | _ => cases h

end Step

/-! ## Runs -/

/-- A run goes on from where the operations before it lead. -/
theorem run_append (s : Session) (first later : List Operation) :
    (s.run (first ++ later)).1 = ((s.run first).1.run later).1 := by
  induction first generalizing s with
  | nil => rfl
  | cons op rest ih => exact ih (s.perform op).1

theorem isNumbered_run (config : Config) (ops : List Operation) :
    IsNumbered ((start config).run ops).1.documents ((start config).run ops).1.opened := by
  induction ops using List.reverseRecOn with
  | nil => exact isNumbered_nil 0
  | append_singleton ops op ih =>
    rw [run_append]
    exact (leaves_perform _ op).isNumbered ih

end Session

end ClassHighlight
