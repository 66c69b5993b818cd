import ClassHighlight.Proofs.ClassString.Division
import ClassHighlight.Proofs.ClassString.Layout
import ClassHighlight.Proofs.Highlight
import ClassHighlight.Proofs.Source.CallSearch

/-!
# One document, the same escapes

The scanners read a document in parts: the whole of it, the arguments of a call, the body of a
literal or an attribute, a static run of a body, a token of a class list. Each of them tells the
escapes in its part as if there was nothing else. They agree nevertheless, because every such part
starts at the start of the document or behind a character that is no backslash: a parenthesis, a
quote, a closing brace or a blank.
-/

namespace ClassHighlight

/-! ## Where parts start -/

theorem ne_backslash_of_isBlank {c : Char} (h : isBlank c = true) : c ≠ '\\' := by
  rintro rfl
  exact absurd h (by decide)

namespace Token

/-- Each token of a laid out text stands behind a blank, or at the start of the text. -/
theorem IsLayout.isClearAt {before t : Text} {offset : Nat} {tokens : List Token}
    (h : IsLayout offset t tokens) (hoffset : Text.byteLength before = offset)
    (hbefore : t.head?.all isBlank = false → ∀ d ∈ before.getLast?, d ≠ '\\') :
    ∀ token ∈ tokens, IsClearAt (Text.bytes (before ++ t)) token.start := by
  induction h generalizing before with
  | blanks => exact fun token hin => absurd hin List.not_mem_nil
  | @token offset gap word rest c tokens hgap hc hrest hlater ih =>
    subst hoffset
    rw [List.forall_mem_cons]
    constructor
    · -- the last character in front is a blank of the gap, or there is no gap
      have hfront : ∀ d ∈ (before ++ gap).getLast?, d ≠ '\\' := by
        intro d hd
        rcases List.eq_nil_or_concat gap with rfl | ⟨blanks, e, rfl⟩
        · rw [List.append_nil] at hd
          exact hbefore (by simp [hc]) d hd
        · rw [List.concat_eq_append, ← List.append_assoc, List.getLast?_concat] at hd
          cases hd
          exact ne_backslash_of_isBlank (hgap _ (by simp))
      have hclear := isClearAt_behind hfront (c :: word ++ rest)
      rw [Text.byteLength_append] at hclear
      simpa [List.append_assoc] using hclear
    · have hblank : rest.head?.all isBlank = false →
          ∀ d ∈ (before ++ gap ++ c :: word).getLast?, d ≠ '\\' := by
        intro hnot
        rw [hrest] at hnot
        cases hnot
      have hread := @ih (before ++ gap ++ c :: word) (by simp [Nat.add_assoc]) hblank
      simpa [List.append_assoc] using hread

/-- No backslash stands directly before a token. -/
theorem isClearAt_of_mem_split {t : Text} {token : Token} (h : token ∈ split t) :
    IsClearAt (Text.bytes t) token.start :=
  @IsLayout.isClearAt [] t 0 _ (isLayout_splitFrom 0 t) rfl (by simp) token h

end Token

namespace StaticRun

/-- Fixed text is a static run at its offset, or none. -/
theorem mem_ofPieces_fixed {run : StaticRun} {offset : Nat} {t : Text}
    {later : List TemplatePiece} (h : run ∈ ofPieces offset (.fixed t :: later)) :
    run.offset = offset ∨ run ∈ ofPieces (offset + Text.byteLength t) later := by
  rw [ofPieces] at h
  split at h
  · exact Or.inr h
  · rcases List.mem_cons.1 h with rfl | h
    · exact Or.inl rfl
    · exact Or.inr h

/-- Each static run stands behind a closing brace, or where the pieces start. -/
theorem isClearAt_of_mem_ofPieces {body before t : Text} {run : StaticRun} (hbody : body = before ++ t)
    (hbefore : IsClearAt (Text.bytes body) (Text.byteLength before))
    (h : run ∈ ofPieces (Text.byteLength before) (TemplatePiece.split t)) :
    IsClearAt (Text.bytes body) run.offset := by
  fun_induction TemplatePiece.split t generalizing before with
  | case1 t fixedText hfixed =>
    rcases mem_ofPieces_fixed h with heq | hlater
    · rwa [heq]
    · cases hlater
  | case2 t fixedText c rest hfixed closed after hclosed ih =>
    rcases mem_ofPieces_fixed h with heq | hlater
    · rwa [heq]
    · -- the interpolation ends with a brace, and the other pieces stand behind it
      have happend := TemplatePiece.splitFixed_append false t
      rw [hfixed, (TemplatePiece.append_of_splitInterpolation? hclosed).1] at happend
      obtain ⟨inner, rfl, -⟩ := TemplatePiece.exists_of_splitInterpolation? hclosed
      have hwhole : body = before ++ fixedText ++ (inner ++ ['}']) ++ after := by
        rw [hbody, ← happend]
        simp only [List.append_assoc]
      have hbrace := isClearAt_concat (c := '}') (by decide) (before ++ fixedText ++ inner) after
      rw [List.append_assoc _ inner, ← hwhole] at hbrace
      apply ih hwhole hbrace
      rw [Text.byteLength_append, Text.byteLength_append]
      exact hlater
  | case3 t fixedText c rest hfixed hnone =>
    rcases mem_ofPieces_fixed h with heq | hlater
    · rwa [heq]
    · -- behind an interpolation without an end there is no text
      cases hlater

/-- No backslash stands directly before a static run. -/
theorem isClearAt_of_mem_all {body : Text} {run : StaticRun} (h : run ∈ all body) :
    IsClearAt (Text.bytes body) run.offset :=
  @isClearAt_of_mem_ofPieces body [] body run rfl (Or.inl rfl) h

end StaticRun

namespace Source

variable {t : Text} {call : Call} {c : Candidate}

/-- The arguments of a call stand behind its parenthesis. -/
theorem args_spec (h : call ∈ (ofText t).calls) :
    t.HasAt call.argsStart call.args ∧ IsClearAt (Text.bytes t) call.argsStart ∧
      call.stop - 1 = call.argsStart + Text.byteLength call.args := by
  obtain ⟨f, start, opening, close, hcalled, rfl⟩ := mem_calls_iff.1 h
  obtain ⟨-, hat, hclose⟩ := args_of_isCalledAt hcalled
  have hparen : (Text.bytes t)[opening]? = some '('.toUInt8 := hcalled.parenthesis
  refine ⟨hat, Or.inr ?_, hclose⟩
  show (Text.bytes t)[opening]? ≠ some backslash
  rw [hparen]
  decide

/-- What stands between delimiters stands behind a quote. -/
theorem IsDelimited.isClearAt {stop : Nat} (h : (ofText t).IsDelimited c stop) :
    IsClearAt (Text.bytes t) c.base := by
  have hquote : ∀ q : Quote, some q.byte ≠ some backslash := by
    intro q
    cases q <;> decide
  right
  rw [show (Text.bytes t)[c.base - 1]? = some c.quote.byte from h.opening]
  exact hquote _

end Source

/-! ## Parts that are scanned -/

/-- A part of a document that a scanner reads on its own, with its offset. -/
inductive IsScanned (t : Text) : Nat → Text → Prop
  /-- The whole of it, in which comments and the ends of calls are looked for. -/
  | document : IsScanned t 0 t
  /-- The arguments of a call, in which literals are looked for. -/
  | arguments {call : Call} (h : call ∈ (Source.ofText t).calls) :
      IsScanned t call.argsStart call.args
  /-- The value of an attribute. -/
  | value {c : Candidate} (h : c ∈ (Source.ofText t).attributes) : IsScanned t c.base c.text
  /-- A literal among the arguments of a call. -/
  | literal {call : Call} {c : Candidate} (hcall : call ∈ (Source.ofText t).calls)
      (h : c ∈ (Source.ofText t).literals call) : IsScanned t c.base c.text
  /-- A static run of such a part. -/
  | run {base : Nat} {body : Text} {run : StaticRun} (hbody : IsScanned t base body)
      (h : run ∈ StaticRun.all body) : IsScanned t (base + run.offset) run.text
  /-- A token of such a part. -/
  | token {base : Nat} {list : Text} {token : Token} (hlist : IsScanned t base list)
      (h : token ∈ Token.split list) : IsScanned t (base + token.start) token.text

variable {t part : Text} {base : Nat}

/-- A scanned part stands in the document, with no backslash directly before it. -/
theorem IsScanned.place (h : IsScanned t base part) :
    t.HasAt base part ∧ IsClearAt (Text.bytes t) base := by
  induction h with
  | document => exact ⟨.whole t, Or.inl rfl⟩
  | arguments h => exact ⟨(Source.args_spec h).1, (Source.args_spec h).2.1⟩
  | value h =>
    obtain ⟨-, stop, hdelimited⟩ := Source.isDelimited_of_mem_attributes h
    exact ⟨hdelimited.hasAt, hdelimited.isClearAt⟩
  | literal hcall h =>
    obtain ⟨stop, hdelimited⟩ := Source.isDelimited_of_mem_literals hcall h
    exact ⟨hdelimited.hasAt, hdelimited.isClearAt⟩
  | run _ hrun ih =>
    obtain ⟨hat, hclear⟩ := ih
    have hinner := StaticRun.hasAt_of_mem_all hrun
    have hle := hinner.le_byteLength
    exact ⟨hat.trans hinner,
      hclear.trans hat (StaticRun.isClearAt_of_mem_all hrun) (by omega)⟩
  | token _ htoken ih =>
    obtain ⟨hat, hclear⟩ := ih
    have hinner := (Token.isReadFrom_of_mem_split htoken).place
    have hle := hinner.le_byteLength
    exact ⟨hat.trans hinner,
      hclear.trans hat (Token.isClearAt_of_mem_split htoken) (by omega)⟩

/-- What is selected is scanned. -/
theorem isScanned_of_mem_selected {mode : Mode} {cursor? : Option Nat} {c : Candidate}
    (h : c ∈ (Source.ofText t).selected mode cursor?) : IsScanned t c.base c.text := by
  rcases Source.attribute_or_literal_of_mem_selected h with hattribute | ⟨call, hcall, hliteral⟩
  · exact .value hattribute
  · exact .literal hcall hliteral

/-- The tokens of a scanned text are scanned. -/
theorem IsScanned.of_mem_tokens {c : Candidate} (h : IsScanned t c.base c.text) {token : Token}
    (hin : token ∈ c.tokens) : IsScanned t token.start token.text := by
  unfold Candidate.tokens at hin
  split at hin
  · obtain ⟨run, hrun, hin⟩ := List.mem_flatMap.1 hin
    obtain ⟨inner, hinner, rfl⟩ := List.mem_map.1 hin
    exact .token (.run h hrun) hinner
  · obtain ⟨inner, hinner, rfl⟩ := List.mem_map.1 hin
    exact .token h hinner

/-! ## Scanning the arguments of a call on their own -/

/-- A mark moved to the right. -/
def Mark.shift (m : Mark) (base : Nat) : Mark := { m with offset := base + m.offset }

/-- Two marks are the same for a search for literals. -/
def Mark.Agrees (m m' : Mark) : Prop :=
  m.offset = m'.offset ∧ m.byte = m'.byte ∧ m.escaped = m'.escaped

namespace Source

/-- A search for literals looks at the offsets, the bytes and the escapes only. -/
theorem literalsFrom_congr (comments : CommentMap) {ms ms' : List Mark}
    (h : List.Forall₂ Mark.Agrees ms ms') (open? : Option (Quote × Nat)) :
    literalsFrom comments open? ms = literalsFrom comments open? ms' := by
  induction h generalizing open? with
  | nil => rfl
  | @cons m m' ms ms' hm _ ih =>
    obtain ⟨hoffset, hbyte, hescaped⟩ := hm
    cases open? with
    | none =>
      have hopens : m.opens? = m'.opens? := by rw [Mark.opens?, Mark.opens?, hbyte, hescaped]
      rw [literalsFrom, literalsFrom, hoffset, hopens, ih, ih]
    | some literal =>
      have hcloses : m.closes literal.1 = m'.closes literal.1 := by
        rw [Mark.closes, Mark.closes, hbyte, hescaped]
      rw [literalsFrom, literalsFrom, hoffset, hcloses, ih, ih]

/-- The literals of a call, found in its arguments without a look at what stands before them. -/
def literalsAlone (source : Source) (call : Call) : List Candidate :=
  let args := (Mark.ofBytes (Text.bytes call.args)).map fun m => m.shift call.argsStart
  (literalsFrom source.comments none args).map fun (quote, span) =>
    ⟨source.slice span, span.start, .argument, quote⟩

end Source

/-- A mark of a scanned part on its own is a mark of the document, but for what it tells about the
line. -/
theorem IsScanned.agrees (h : IsScanned t base part) {i : Nat} {m m' : Mark}
    (hm : (Mark.ofBytes (Text.bytes part))[i]? = some m)
    (hm' : (Source.ofText t).marks[base + i]? = some m') : (m.shift base).Agrees m' := by
  obtain ⟨hat, hclear⟩ := h.place
  have hlt := (List.getElem?_eq_some_iff.1 hm).1
  rw [Mark.length_ofBytes, Text.length_bytes] at hlt
  refine ⟨?_, ?_, ?_⟩
  · rw [Mark.offset_of_getElem? hm']
    show base + m.offset = base + i
    rw [Mark.offset_of_getElem? hm]
  · have hbyte := hat.getElem?_bytes hlt
    rw [Mark.byte_of_getElem? hm, Mark.byte_of_getElem? hm'] at hbyte
    exact (Option.some.inj hbyte).symm
  · rw [Mark.escaped_of_getElem? hm', ← hclear.isEscaped_eq hat (Nat.le_of_lt hlt)]
    show m.escaped = _
    exact Mark.escaped_of_getElem? hm

namespace Source

/-- The literals of a call are those of its arguments on their own. -/
theorem literalsAlone_eq {call : Call} (h : call ∈ (ofText t).calls) :
    (ofText t).literalsAlone call = (ofText t).literals call := by
  obtain ⟨hat, -, hstop⟩ := args_spec h
  have hlength : call.stop - 1 - call.argsStart = Text.byteLength call.args := by omega
  have hle := hat.le_byteLength
  rw [← Text.length_bytes t, ← Mark.length_ofBytes (Text.bytes t)] at hle
  have hmarks : List.Forall₂ Mark.Agrees
      ((Mark.ofBytes (Text.bytes call.args)).map fun m => m.shift call.argsStart)
      (((ofText t).marks.drop call.argsStart).take (call.stop - 1 - call.argsStart)) := by
    rw [List.forall₂_iff_get]
    constructor
    · rw [List.length_map, Mark.length_ofBytes, Text.length_bytes, List.length_take,
        List.length_drop, hlength]
      have hmin : Text.byteLength call.args ≤ (ofText t).marks.length - call.argsStart := by
        show _ ≤ (Mark.ofBytes (Text.bytes t)).length - _
        omega
      rw [Nat.min_eq_left hmin]
    · intro i hi hi'
      simp only [List.get_eq_getElem, List.getElem_map, List.getElem_take, List.getElem_drop]
      exact (IsScanned.arguments h).agrees (List.getElem?_eq_getElem _) (List.getElem?_eq_getElem _)
  rw [literalsAlone, literals, literalsFrom_congr _ hmarks]

end Source

/-! ## Dividing a part -/

namespace TemplatePiece

variable {body : Text} {offset : Nat}

/-- Fixed text is fixed wherever the same delimiters are escaped. -/
theorem IsFixed.move {fixedText : Text} (h : IsFixed body offset fixedText)
    (hsame : ∀ i ≤ offset + Text.byteLength fixedText,
      isEscaped (Text.bytes body) i = isEscaped (Text.bytes t) (base + i)) :
    IsFixed t (base + offset) fixedText := by
  intro i hat
  have hle := hat.le_byteLength
  rw [Nat.add_assoc, ← hsame _ (by omega)]
  exact h i hat

theorem byteLength_flatMap_cons (piece : TemplatePiece) (later : List TemplatePiece) :
    Text.byteLength ((piece :: later).flatMap text) =
      Text.byteLength piece.text + Text.byteLength (later.flatMap text) := by
  rw [List.flatMap_cons, Text.byteLength_append]

/-- Pieces take turns in the same way wherever the same delimiters are escaped. -/
theorem Alternate.move {pieces : List TemplatePiece} (h : Alternate body offset pieces)
    (hsame : ∀ i ≤ offset + Text.byteLength (pieces.flatMap text),
      isEscaped (Text.bytes body) i = isEscaped (Text.bytes t) (base + i)) :
    Alternate t (base + offset) pieces := by
  -- the first fixed text and the delimiter behind it are within the pieces
  have hfirst : ∀ {offset fixedText later}, (∀ i ≤ offset +
      Text.byteLength ((TemplatePiece.fixed fixedText :: later).flatMap text),
        isEscaped (Text.bytes body) i = isEscaped (Text.bytes t) (base + i)) →
      ∀ i ≤ offset + Text.byteLength fixedText,
        isEscaped (Text.bytes body) i = isEscaped (Text.bytes t) (base + i) := by
    intro offset fixedText later hall i hi
    rw [byteLength_flatMap_cons] at hall
    exact hall i (Nat.le_trans hi (Nat.add_le_add_left (Nat.le_add_right _ _) _))
  induction h with
  | last hfixed => exact .last (hfixed.move (hfirst hsame))
  | closed hfixed hopens hinner _ ih =>
    refine .closed (hfixed.move (hfirst hsame)) ?_ hinner ?_
    · rw [Nat.add_assoc, ← hfirst hsame _ (Nat.le_refl _)]
      exact hopens
    · rw [Nat.add_assoc base, Nat.add_assoc base]
      apply ih
      intro i hi
      apply hsame
      rw [byteLength_flatMap_cons, byteLength_flatMap_cons, ← Nat.add_assoc, ← Nat.add_assoc]
      exact hi
  | unclosed hfixed hopens hinner =>
    refine .unclosed (hfixed.move (hfirst hsame)) ?_ hinner
    rw [Nat.add_assoc, ← hfirst hsame _ (Nat.le_refl _)]
    exact hopens

end TemplatePiece

/-! ## Escapes are shared -/

/-- Whoever scans a part of a document finds the same escapes as in the document. -/
structure SharesEscapes (t : Text) (base : Nat) (part : Text) : Prop where
  /-- The part stands in the document. -/
  place : t.HasAt base part
  /-- No backslash stands directly before it. -/
  clear : IsClearAt (Text.bytes t) base
  /-- Its own escapes are those of the document. -/
  same : ∀ i ≤ Text.byteLength part,
    isEscaped (Text.bytes part) i = isEscaped (Text.bytes t) (base + i)
  /-- So are those that its own marks tell. -/
  marks : ∀ i m, (Mark.ofBytes (Text.bytes part))[i]? = some m →
    m.escaped = isEscaped (Text.bytes t) (base + i)
  /-- So are those that a scan for brackets keeps when it starts with the part. -/
  nesting : ∀ front behind, part = front ++ behind →
    (Nesting.start.after front).escaped = isEscaped (Text.bytes t) (base + Text.byteLength front)
  /-- By these the part is divided into fixed texts and interpolations. -/
  pieces : TemplatePiece.Alternate t base (TemplatePiece.split part)

theorem IsScanned.sharesEscapes (h : IsScanned t base part) : SharesEscapes t base part := by
  obtain ⟨hat, hclear⟩ := h.place
  have hsame : ∀ i ≤ Text.byteLength part,
      isEscaped (Text.bytes part) i = isEscaped (Text.bytes t) (base + i) :=
    fun i hi => hclear.isEscaped_eq hat hi
  refine ⟨hat, hclear, hsame, ?_, ?_, ?_⟩
  · intro i m hm
    have hlt := (List.getElem?_eq_some_iff.1 hm).1
    rw [Mark.length_ofBytes, Text.length_bytes] at hlt
    rw [Mark.escaped_of_getElem? hm, hsame i (Nat.le_of_lt hlt)]
  · intro front behind hsplit
    have hle : Text.byteLength front ≤ Text.byteLength part := by
      rw [hsplit, Text.byteLength_append]
      exact Nat.le_add_right _ _
    rw [Nesting.escaped_after_front hsplit, hsame _ hle]
  · have hown := @TemplatePiece.alternate_split part [] part (List.nil_append part).symm rfl
    apply hown.move
    rw [TemplatePiece.flatMap_split, Text.byteLength_nil, Nat.zero_add]
    exact hsame

/-- Counting the backslashes before a byte comes to the same as going forward from the first byte. A
slice has its own escapes wherever no backslash stands directly before it, and exactly where nothing
is escaped at its start. So every part of a document that is scanned on its own has the escapes of
the document, among them all that is selected and all tokens of it, and the literals of a call can
be found in its arguments alone. -/
theorem escapes_agree :
    (∀ (bytes : List UInt8) (i : Nat), i ≤ bytes.length →
      isEscaped bytes i = escapedFromFront bytes i) ∧
    (∀ (bytes : List UInt8) (start stop : Nat), start ≤ stop → stop ≤ bytes.length →
      (IsClearAt bytes start → ∀ i ≤ stop - start,
        isEscaped ((bytes.take stop).drop start) i = isEscaped bytes (start + i)) ∧
      ((∀ i ≤ stop - start,
        isEscaped ((bytes.take stop).drop start) i = isEscaped bytes (start + i)) ↔
          isEscaped bytes start = false)) ∧
    ∀ t : Text,
      (∀ base part, IsScanned t base part → SharesEscapes t base part) ∧
      (∀ call ∈ (Source.ofText t).calls,
        (Source.ofText t).literalsAlone call = (Source.ofText t).literals call) ∧
      ∀ mode cursor?, ∀ c ∈ (Source.ofText t).selected mode cursor?,
        IsScanned t c.base c.text ∧ ∀ token ∈ c.tokens, IsScanned t token.start token.text := by
  refine ⟨fun bytes i hi => isEscaped_eq_escapedFromFront hi, ?_, fun t => ⟨?_, ?_, ?_⟩⟩
  · intro bytes start stop hle hstop
    constructor
    · intro hclear i hi
      exact isEscaped_slice (hclear.isEscaped (Nat.le_trans hle hstop)) hle hstop hi
    · exact isEscaped_slice_iff hle hstop
  · exact fun base part hscanned => hscanned.sharesEscapes
  · exact fun call hcall => Source.literalsAlone_eq hcall
  · intro mode cursor? c hc
    have hscanned := isScanned_of_mem_selected hc
    exact ⟨hscanned, fun token htoken => hscanned.of_mem_tokens htoken⟩

/-- A token of a template literal holds an escaped bracket behind two backslashes that belong to
another token. A slice behind a lone backslash has other escapes. -/
theorem escapes_agree_in_template :
    ⟨"\\\\ a[\\]] $\x7bb\x7d c".toList, 7, .argument, .template⟩ ∈
        (Source.ofText "x\\ cn(`\\\\ a[\\]] $\x7bb\x7d c`)".toList).selected .full none ∧
      IsScanned "x\\ cn(`\\\\ a[\\]] $\x7bb\x7d c`)".toList 10 "a[\\]]".toList ∧
      isEscaped (Text.bytes "a[\\]]".toList) 3 = true ∧
      isEscaped (Text.bytes "x\\ cn(`\\\\ a[\\]] $\x7bb\x7d c`)".toList) (10 + 3) = true ∧
      isEscaped [backslash, backslash, Quote.single.byte] 1 = escapedFromFront
        [backslash, backslash, Quote.single.byte] 1 ∧
      ¬ ∀ i ≤ 2, isEscaped [backslash, Quote.single.byte] i =
        isEscaped [backslash, backslash, Quote.single.byte] (1 + i) := by
  obtain ⟨hforward, hslice, hdocument⟩ := escapes_agree
  obtain ⟨hparts, -, hselected⟩ := hdocument "x\\ cn(`\\\\ a[\\]] $\x7bb\x7d c`)".toList
  have hc : ⟨"\\\\ a[\\]] $\x7bb\x7d c".toList, 7, .argument, .template⟩ ∈
      (Source.ofText "x\\ cn(`\\\\ a[\\]] $\x7bb\x7d c`)".toList).selected .full none := by
    decide +kernel
  have htoken : ⟨"a[\\]]".toList, 10⟩ ∈ Candidate.tokens
      ⟨"\\\\ a[\\]] $\x7bb\x7d c".toList, 7, .argument, .template⟩ := by
    decide +kernel
  have hscanned := (hselected _ _ _ hc).2 _ htoken
  have hescaped : isEscaped (Text.bytes "a[\\]]".toList) 3 = true := by decide
  have hwhole := (hparts _ _ hscanned).same 3 (by decide)
  refine ⟨hc, hscanned, hescaped, hwhole.symm.trans hescaped, hforward _ 1 (by decide), ?_⟩
  intro hall
  have hown := (hslice [backslash, backslash, Quote.single.byte] 1 3 (by decide) (by decide)).2
  exact absurd (hown.1 hall) (by decide)

end ClassHighlight
