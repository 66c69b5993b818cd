import ClassHighlight.Proofs.Source.Attributes
import ClassHighlight.Proofs.Source.Call
import ClassHighlight.Proofs.Text.Place
import ClassHighlight.Source.Selection

/-!
# Where candidates stand

The value of an attribute stands between two quotation marks, and a literal between the delimiters
of a quoted region that the walk over the arguments of its call meets.
-/

namespace ClassHighlight

namespace Source

/-! ## Delimiters -/

/-- A candidate stands between two bytes that are its delimiter, and has all of the text between
them. -/
structure IsDelimited (source : Source) (c : Candidate) (stop : Nat) : Prop where
  /-- There is a byte before the text. -/
  behind : 1 ≤ c.base
  /-- That byte is the delimiter. -/
  opening : (Text.bytes source.text)[c.base - 1]? = some c.quote.byte
  /-- The text does not end before it starts. -/
  ordered : c.base ≤ stop
  /-- The byte behind the text is the delimiter. -/
  closing : (Text.bytes source.text)[stop]? = some c.quote.byte
  /-- The text is the one between the two. -/
  text : c.text = source.slice ⟨c.base, stop⟩

/-- What stands in the document at an offset is what is cut out there. -/
theorem slice_of_hasAt {t part : Text} {start : Nat} (h : t.HasAt start part) :
    (ofText t).slice ⟨start, start + Text.byteLength part⟩ = part := by
  unfold slice Span.slice?
  rw [show Text.slice? (ofText t).text start _ = some part from h.slice?]
  rfl

/-- What is cut out between two boundaries stands in the document, and reaches from one to the
other. -/
theorem hasAt_slice {t : Text} {start stop : Nat} (hstart : t.IsBoundary start)
    (hstop : t.IsBoundary stop) (hle : start ≤ stop) :
    t.HasAt start ((ofText t).slice ⟨start, stop⟩) ∧
      stop = start + Text.byteLength ((ofText t).slice ⟨start, stop⟩) := by
  rcases hstart.hasAt hstop hle with ⟨part, hpart, rfl⟩
  rw [slice_of_hasAt hpart]
  exact ⟨hpart, rfl⟩

theorem quote_lt_ascii (q : Quote) : q.byte < 0x80 := by
  cases q <;> decide

namespace IsDelimited

variable {t : Text} {c : Candidate} {stop : Nat}

/-- What stands between delimiters stands in the document, and reaches from one to the other. -/
theorem hasAt_and_eq (h : (ofText t).IsDelimited c stop) :
    t.HasAt c.base c.text ∧ stop = c.base + Text.byteLength c.text := by
  -- both delimiters are ASCII, so the text between them starts and ends at boundaries
  rcases Text.isBoundary_of_ascii h.opening (quote_lt_ascii _) with ⟨-, hstart⟩
  rcases Text.isBoundary_of_ascii h.closing (quote_lt_ascii _) with ⟨hstop, -⟩
  have hbehind := h.behind
  rw [show c.base - 1 + 1 = c.base by omega] at hstart
  rw [h.text]
  exact hasAt_slice hstart hstop h.ordered

/-- What stands between delimiters can be cut out of the document. -/
theorem hasAt (h : (ofText t).IsDelimited c stop) : t.HasAt c.base c.text :=
  h.hasAt_and_eq.1

/-- The extent of a candidate ends where its last delimiter stands. -/
theorem span_eq (h : (ofText t).IsDelimited c stop) : c.span = ⟨c.base, stop⟩ := by
  rw [h.hasAt_and_eq.2]
  rfl

end IsDelimited

/-! ## Attributes -/

section Attributes

variable {t : Text} {c c' : Candidate}

theorem isDelimited_of_isAttributeAt {name : Text} {start : Nat} {body : Span}
    (h : IsAttributeAt (Text.bytes t) name start body) :
    (ofText t).IsDelimited ⟨(ofText t).slice body, body.start, .attribute, .double⟩ body.stop := by
  have hbehind := h.behind
  exact ⟨by simp only; omega, h.opening, h.ordered, h.closing, rfl⟩

/-- The value of an attribute stands between quotation marks. -/
theorem isDelimited_of_mem_attributes (h : c ∈ (ofText t).attributes) :
    c.kind = .attribute ∧ ∃ stop, (ofText t).IsDelimited c stop := by
  rcases isAttributeAt_of_mem h with ⟨name, start, body, hat, rfl⟩
  exact ⟨rfl, body.stop, isDelimited_of_isAttributeAt hat⟩

/-- The value of an attribute ends before that of an attribute found further on starts. -/
theorem stop_lt_of_attributeOf? {name name' : Text} {i i' : Nat} (hclass : name ∈ classAttributes)
    (hclass' : name' ∈ classAttributes) (hlt : i < i')
    (h : (ofText t).attributeOf? name ((Mark.ofBytes (Text.bytes t)).drop i) = some c)
    (h' : (ofText t).attributeOf? name' ((Mark.ofBytes (Text.bytes t)).drop i') = some c') :
    c.span.stop < c'.base := by
  rcases attributeOf?_spec hclass h with ⟨body, hat, rfl⟩
  rcases attributeOf?_spec hclass' h' with ⟨body', hat', rfl⟩
  rw [(isDelimited_of_isAttributeAt hat).span_eq]
  exact hat.stop_lt hat' hlt

/-- The values of class attributes are in order, and each ends before the next one starts. -/
theorem pairwise_attributes (t : Text) :
    (ofText t).attributes.Pairwise fun c c' => c.span.stop < c'.base := by
  rw [attributes, attributesFrom_eq_foundFrom]
  apply pairwise_foundFrom (by decide) (fun _ => rfl)
  · -- two names at one place are the same
    intro i name hclass name' hclass' c c' hc hc'
    rcases attributeOf?_spec hclass hc with ⟨body, hat, -⟩
    rcases attributeOf?_spec hclass' hc' with ⟨body', hat', -⟩
    exact hat.name_eq hat'
  · intro i j hlt name hclass name' hclass' c c' hc hc'
    exact stop_lt_of_attributeOf? hclass hclass' hlt hc hc'

end Attributes

/-! ## Literals -/

section Literals

variable {t : Text} {call : Call} {c : Candidate}

/-- Cutting off the end of the document before the arguments of a call, or behind them, makes no
difference to its literals. -/
theorem literals_eq_map (t : Text) (call : Call) :
    (ofText t).literals call =
      (literalsFrom (ofText t).comments none
        (((Mark.ofBytes (Text.bytes t)).take (call.stop - 1)).drop call.argsStart)).map
        fun (quote, body) => ⟨(ofText t).slice body, body.start, .argument, quote⟩ := by
  unfold literals
  rw [List.drop_take]
  rfl

/-- The literals of a call are those that the walk over its arguments meets before they end. -/
theorem mem_literals (hcall : call ∈ (ofText t).calls) :
    c ∈ (ofText t).literals call ↔ ∃ q body,
      IsLiteral (Text.bytes t) (ofText t).comments call.argsStart q body ∧
        body.stop + 1 < call.stop ∧
        c = ⟨(ofText t).slice body, body.start, .argument, q⟩ := by
  rcases (isCallAt_of_mem hcall).1.stop_spec with ⟨hlt, hle, -, -⟩
  have hmem : ∀ q body, (q, body) ∈ literalsFrom (ofText t).comments none
      (((Mark.ofBytes (Text.bytes t)).take (call.stop - 1)).drop call.argsStart) ↔
      IsLiteral (Text.bytes t) (ofText t).comments call.argsStart q body ∧
        call.argsStart < body.start ∧ body.stop < call.stop - 1 := by
    intro q body
    exact (mem_literalsFrom (by omega) (Nat.le_refl _) (by omega)).1
      (openSince_of_le (Nat.le_refl _))
  rw [literals_eq_map]
  simp only [List.mem_map, Prod.exists]
  constructor
  · rintro ⟨q, body, hin, rfl⟩
    rcases (hmem q body).1 hin with ⟨hbody, -, hbefore⟩
    exact ⟨q, body, hbody, by omega, rfl⟩
  · rintro ⟨q, body, hbody, hbefore, rfl⟩
    exact ⟨q, body, (hmem q body).2 ⟨hbody, hbody.after, by omega⟩, rfl⟩

/-- A literal that a walk meets stands between its delimiters. -/
theorem isDelimited_of_isLiteral {start : Nat} {q : Quote} {body : Span}
    (hbody : IsLiteral (Text.bytes t) (ofText t).comments start q body) :
    (ofText t).IsDelimited ⟨(ofText t).slice body, body.start, .argument, q⟩ body.stop := by
  have hafter := hbody.after
  have hordered := hbody.ordered
  refine ⟨by simp only; omega, ?_, hordered, ?_, rfl⟩
  · apply getElem?_of_opens hbody.outside
    rw [show body.start - 1 + 1 = body.start by omega]
    exact hbody.within body.start (Nat.le_refl _) hordered
  · exact getElem?_of_closes (hbody.within body.stop hordered (Nat.le_refl _)) hbody.closed

theorem isDelimited_of_mem_literals (hcall : call ∈ (ofText t).calls)
    (h : c ∈ (ofText t).literals call) : ∃ stop, (ofText t).IsDelimited c stop := by
  rcases (mem_literals hcall).1 h with ⟨q, body, hbody, -, rfl⟩
  exact ⟨body.stop, isDelimited_of_isLiteral hbody⟩

/-- The literals of a call follow each other, with their delimiters apart. -/
theorem pairwise_literals (hcall : call ∈ (ofText t).calls) :
    ((ofText t).literals call).Pairwise fun a b => a.span.stop + 1 < b.base := by
  rcases (isCallAt_of_mem hcall).1.stop_spec with ⟨hlt, hle, -, -⟩
  rw [literals_eq_map, List.pairwise_map]
  have hpairwise := @pairwise_literalsFrom (Text.bytes t) (ofText t).comments
    (call.stop - 1) none (by omega) call.argsStart (by omega)
  apply (List.Pairwise.and_mem.1 hpairwise).imp
  rintro a b ⟨ha, -, hbefore⟩
  -- the extent of the first literal is its body
  have hmem := @mem_literalsFrom (Text.bytes t) (ofText t).comments call.argsStart
    (call.stop - 1) a.1 a.2 (by omega) call.argsStart (Nat.le_refl _) (by omega)
  have hbody := ((hmem.1 (openSince_of_le (Nat.le_refl _))).1 ha).1
  rw [(isDelimited_of_isLiteral hbody).span_eq]
  exact hbefore

theorem pairwise_base_literals (hcall : call ∈ (ofText t).calls) :
    ((ofText t).literals call).Pairwise fun a b => a.base < b.base := by
  apply (pairwise_literals hcall).imp
  intro a b hbefore
  have hstop : a.base ≤ a.span.stop := Nat.le_add_right _ _
  omega

theorem kind_of_mem_literals (h : c ∈ (ofText t).literals call) : c.kind = .argument := by
  rcases List.mem_map.1 h with ⟨_, -, rfl⟩
  rfl

end Literals

/-! ## All candidates -/

/-- A literal of a call is a candidate of the document exactly when an outermost call has it. -/
theorem mem_candidates_of_literal {t : Text} {call : Call} {c : Candidate}
    (h : c ∈ (ofText t).literals call) :
    c ∈ (ofText t).candidates ↔
      ∃ o ∈ Call.outermost (ofText t).calls, c ∈ (ofText t).literals o := by
  -- an attribute is a candidate of another kind
  have hattribute : c ∉ (ofText t).attributes := by
    intro hin
    have hkind := (isDelimited_of_mem_attributes hin).1
    rw [kind_of_mem_literals h] at hkind
    cases hkind
  rw [candidates, List.mem_mergeSort, List.mem_append, arguments, List.mem_flatMap]
  constructor
  · rintro (hin | hin)
    · exact absurd hin hattribute
    · exact hin
  · intro hin
    exact Or.inr hin

/-! ## Selected candidates -/

section Selected

variable {t : Text} {mode : Mode} {cursor? : Option Nat} {c : Candidate}

/-- Every candidate that a mode selects is the value of an attribute or a literal of a call. -/
theorem attribute_or_literal_of_mem_selected (h : c ∈ (ofText t).selected mode cursor?) :
    c ∈ (ofText t).attributes ∨ ∃ call ∈ (ofText t).calls, c ∈ (ofText t).literals call := by
  unfold selected at h
  split at h
  · -- all candidates
    rw [candidates, List.mem_mergeSort, List.mem_append, arguments, List.mem_flatMap] at h
    rcases h with hattribute | ⟨o, ho, hliteral⟩
    · exact Or.inl hattribute
    · exact Or.inr ⟨o, Call.mem_of_mem_outermostFrom ho, hliteral⟩
  · -- those around the cursor
    unfold candidatesAt at h
    split at h
    · rename_i found hfind
      rw [List.mem_singleton.1 h]
      exact Or.inl (List.mem_of_find?_eq_some hfind)
    · split at h
      · rename_i o hfind
        exact Or.inr ⟨o, Call.mem_of_mem_outermostFrom (List.mem_of_find?_eq_some hfind), h⟩
      · cases h
  · cases h

/-- Every candidate that a mode selects stands between its delimiters. -/
theorem isDelimited_of_mem_selected (h : c ∈ (ofText t).selected mode cursor?) :
    ∃ stop, (ofText t).IsDelimited c stop := by
  rcases attribute_or_literal_of_mem_selected h with hattribute | ⟨call, hcall, hliteral⟩
  · exact (isDelimited_of_mem_attributes hattribute).2
  · exact isDelimited_of_mem_literals hcall hliteral

/-- No candidate that a mode selects starts in a comment. -/
theorem contains_base_of_mem_selected (h : c ∈ (ofText t).selected mode cursor?) :
    (ofText t).comments.contains c.base = false := by
  rcases attribute_or_literal_of_mem_selected h with hattribute | ⟨call, hcall, hliteral⟩
  · rcases mem_attributesFrom.1 hattribute with ⟨i, name, hclass, hname⟩
    rcases (attributeOf?_eq_some_iff hclass).1 hname with ⟨sign, opening, closing, hat, rfl⟩
    exact hat.counted
  · rcases (mem_literals hcall).1 hliteral with ⟨q, body, hbody, -, rfl⟩
    exact hbody.counted

/-- Looking up an offset by halving finds the one comment that covers it, if there is one, as a
search through all comments does. No candidate starts in a comment, whatever is selected. -/
theorem comments_exact_and_excluded (t : Text) :
    (∀ offset, (ofText t).comments.rangeAt? offset =
      (ofText t).comments.ranges.toList.find? fun r => r.contains offset) ∧
    (∀ offset r, (ofText t).comments.rangeAt? offset = some r ↔
      r ∈ (ofText t).comments.ranges.toList ∧ r.start ≤ offset ∧ offset < r.stop) ∧
    (∀ offset, (ofText t).comments.rangeAt? offset = none ↔
      ∀ r ∈ (ofText t).comments.ranges.toList, ¬ (r.start ≤ offset ∧ offset < r.stop)) ∧
    (∀ offset, ∀ r ∈ (ofText t).comments.ranges.toList,
      ∀ r' ∈ (ofText t).comments.ranges.toList,
        r.contains offset = true → r'.contains offset = true → r = r') ∧
    ∀ mode cursor?, ∀ c ∈ (ofText t).selected mode cursor?,
      ∀ r ∈ (ofText t).comments.ranges.toList, ¬ (r.start ≤ c.base ∧ c.base < r.stop) := by
  have hlookup : ∀ offset r, (ofText t).comments.rangeAt? offset = some r ↔
      r ∈ (ofText t).comments.ranges.toList ∧ r.start ≤ offset ∧ offset < r.stop := by
    intro offset r
    rw [← Span.contains_iff]
    exact CommentMap.rangeAt?_eq_some_iff
  have hnone : ∀ offset, (ofText t).comments.rangeAt? offset = none ↔
      ∀ r ∈ (ofText t).comments.ranges.toList, ¬ (r.start ≤ offset ∧ offset < r.stop) := by
    intro offset
    rw [Option.eq_none_iff_forall_ne_some]
    constructor
    · intro h r hr hin
      exact h r ((hlookup offset r).2 ⟨hr, hin⟩)
    · intro h r hr
      rcases (hlookup offset r).1 hr with ⟨hmem, hin⟩
      exact h r hmem hin
  refine ⟨fun _ => CommentMap.rangeAt?_eq_find?, hlookup, hnone, ?_, ?_⟩
  · intro offset r hr r' hr' hin hin'
    exact CommentMap.eq_of_mem_ranges hr hr' hin hin'
  · intro mode cursor? c hc
    have hout : ((ofText t).comments.rangeAt? c.base).isSome = false :=
      contains_base_of_mem_selected hc
    exact (hnone c.base).1 (Option.isNone_iff_eq_none.1 (Option.isSome_eq_false_iff.1 hout))

/-- Between two comments that touch each other and one that follows at once, the literal is
selected, and none of them covers its start. -/
theorem comments_exact_and_excluded_between :
    ⟨['b'], 19, .argument, .single⟩ ∈
        (ofText "cn(/* 'a' *//**/, 'b'// c\n)".toList).selected .cursor (some 2) ∧
    (ofText "cn(/* 'a' *//**/, 'b'// c\n)".toList).comments.rangeAt? 12 = some ⟨12, 16⟩ ∧
    ∀ r ∈ (ofText "cn(/* 'a' *//**/, 'b'// c\n)".toList).comments.ranges.toList,
      ¬ (r.start ≤ 19 ∧ 19 < r.stop) := by
  have hc : ⟨['b'], 19, .argument, .single⟩ ∈
      (ofText "cn(/* 'a' *//**/, 'b'// c\n)".toList).selected .cursor (some 2) := by
    decide +kernel
  rcases comments_exact_and_excluded "cn(/* 'a' *//**/, 'b'// c\n)".toList with
    ⟨-, hlookup, -, -, hexcluded⟩
  exact ⟨hc, (hlookup 12 _).2 (by decide +kernel), hexcluded .cursor (some 2) _ hc⟩

end Selected

end Source

end ClassHighlight
