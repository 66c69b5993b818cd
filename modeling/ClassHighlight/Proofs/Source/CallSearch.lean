import ClassHighlight.Proofs.Source.Candidate

/-!
# Which calls are found

`IsCalledAt` says when a merge function is called at a place of a document: its name stands there,
outside comments and not as the end of an identifier, and behind blanks a parenthesis that is
closed. The calls of a document are those places, each of them once and in order.
-/

namespace ClassHighlight

namespace Source

/-- A merge function is called at `start`, with its arguments between two parentheses. -/
structure IsCalledAt (source : Source) (f : MergeFunction) (start opening close : Nat) : Prop where
  /-- The name stands at the start. -/
  name : Text.bytes f.name <+: (Text.bytes source.text).drop start
  /-- The name does not start in a comment. -/
  uncommented : source.comments.contains start = false
  /-- The name is not the end of an identifier. -/
  apart : ∀ b, 1 ≤ start → (Text.bytes source.text)[start - 1]? = some b →
    isIdentifierByte b = false
  /-- Between the name and the parenthesis there are blanks only. -/
  blanks : AreBlanks (Text.bytes source.text) (start + (Text.bytes f.name).length) opening
  /-- The parenthesis stands behind them. -/
  parenthesis : (Text.bytes source.text)[opening]? = some '('.toUInt8
  /-- The search for the parenthesis that closes it finds one. -/
  closing : source.closingParenOf? opening = some close

section Search

variable {t : Text} {f : MergeFunction} {start : Nat}

/-- Where a merge function is called, the search finds the call. -/
theorem IsCalledAt.callOf? {opening close : Nat}
    (h : (ofText t).IsCalledAt f start opening close) :
    (ofText t).callOf? f ((Mark.ofBytes (Text.bytes t)).drop start) =
      some ⟨f, (ofText t).slice ⟨opening + 1, close⟩, opening + 1, start, close + 1⟩ := by
  have hhead : (Text.bytes t)[start]? = (Text.bytes f.name)[0]? :=
    getElem?_of_prefix_drop h.name (List.getElem?_eq_some_iff.1 f.name_head).1
  rw [f.name_head] at hhead
  rcases Mark.exists_mark hhead with ⟨m, hm, -, hdrop⟩
  have hstarts : Mark.startsWith (Text.bytes f.name) ((Mark.ofBytes (Text.bytes t)).drop start) =
      true := by
    rw [Mark.startsWith_iff, List.map_drop, Mark.map_byte_ofBytes]
    exact h.name
  have hapart := (Mark.any_previous_eq_false_iff isIdentifierByte hm).2 h.apart
  have huncommented : (ofText t).comments.contains m.offset = false := by
    rw [Mark.offset_of_getElem? hm]
    exact h.uncommented
  rw [hdrop, Source.callOf?, ← hdrop, List.drop_drop, hstarts, hapart, huncommented]
  -- all conditions hold, and behind the blanks stands the parenthesis
  simp only [Bool.not_false, Bool.and_self, if_true]
  have hblanks : AreBlanks (Text.bytes t) (start + (Text.bytes f.name).length) opening := h.blanks
  have hparenthesis : (Text.bytes t)[opening]? = some '('.toUInt8 := h.parenthesis
  have hclosing : closingParen? (ofText t).comments none 0
      ((Mark.ofBytes (Text.bytes t)).drop opening) = some close := h.closing
  rcases Mark.exists_mark hparenthesis with ⟨p, hp, hbyte, hpdrop⟩
  rw [hpdrop] at hclosing
  rw [Mark.dropBlanks_eq_drop hblanks hparenthesis (by decide), hpdrop]
  simp only
  rw [hbyte, if_pos (by decide), hclosing, Option.map_some, Mark.offset_of_getElem? hm,
    Mark.offset_of_getElem? hp]

/-- The search finds a call at an index exactly where a merge function is called. -/
theorem callOf?_eq_some_iff {c : Call} :
    (ofText t).callOf? f ((Mark.ofBytes (Text.bytes t)).drop start) = some c ↔
      ∃ opening close, (ofText t).IsCalledAt f start opening close ∧
        c = ⟨f, (ofText t).slice ⟨opening + 1, close⟩, opening + 1, start, close + 1⟩ := by
  constructor
  · intro h
    rcases callOf?_spec t h with ⟨hstart, hf, hargs, hat⟩
    have hbehind := hat.behind
    have hpositive := hat.positive
    refine ⟨c.argsStart - 1, c.stop - 1, ?_, ?_⟩
    · rw [← hstart, ← hf]
      refine ⟨hat.name, hat.uncommented, hat.apart, ⟨by omega, ?_⟩, hat.opening, ?_⟩
      · intro j hj hlt
        exact hat.blanks j hj (by omega)
      · -- at the parenthesis the walk has just started
        have hclosing := hat.closing
        unfold closingSince at hclosing
        rw [openSince_of_le (Nat.le_refl _)] at hclosing
        exact hclosing
    · cases c
      simp only at hstart hf hargs hbehind hpositive ⊢
      rw [Nat.sub_add_cancel (by omega), Nat.sub_add_cancel hpositive, hstart, hf, hargs]
  · rintro ⟨opening, close, hcalled, rfl⟩
    exact hcalled.callOf?

/-- The calls of a document are where merge functions are called. -/
theorem mem_calls_iff {c : Call} :
    c ∈ (ofText t).calls ↔ ∃ f start opening close, (ofText t).IsCalledAt f start opening close ∧
      c = ⟨f, (ofText t).slice ⟨opening + 1, close⟩, opening + 1, start, close + 1⟩ := by
  unfold calls
  rw [mem_callsFrom]
  constructor
  · rintro ⟨start, f, hf⟩
    rcases callOf?_eq_some_iff.1 hf with ⟨opening, close, hcalled, heq⟩
    exact ⟨f, start, opening, close, hcalled, heq⟩
  · rintro ⟨f, start, opening, close, hcalled, heq⟩
    exact ⟨start, f, callOf?_eq_some_iff.2 ⟨opening, close, hcalled, heq⟩⟩

/-- No comment covers the opening parenthesis of a call, and its arguments are what stands between
the parentheses. -/
theorem args_of_isCalledAt {opening close : Nat}
    (h : (ofText t).IsCalledAt f start opening close) :
    (ofText t).comments.contains opening = false ∧
      t.HasAt (opening + 1) ((ofText t).slice ⟨opening + 1, close⟩) ∧
      close = opening + 1 + Text.byteLength ((ofText t).slice ⟨opening + 1, close⟩) := by
  have hat := (callOf?_spec t h.callOf?).2.2.2
  have hblanks := h.blanks.1
  have hname : 0 < (Text.bytes f.name).length :=
    (List.getElem?_eq_some_iff.1 f.name_head).1
  rcases hat.stop_spec with ⟨hlt, -, hclose, -⟩
  simp only at hlt hclose
  -- both parentheses are ASCII, so the text between them starts and ends at boundaries
  rcases Text.isBoundary_of_ascii h.parenthesis (by decide) with ⟨-, hstart⟩
  rcases Text.isBoundary_of_ascii hclose (by decide) with ⟨hstop, -⟩
  rw [Nat.add_sub_cancel] at hstop
  constructor
  · exact hat.uncommented_head (by simp only; omega) (by simp only; omega)
  · exact hasAt_slice hstart hstop (by omega)

end Search

/-! ## One name after the other -/

/-- No name of a merge function overlaps with itself. -/
theorem isUnbordered_name (f : MergeFunction) : Mark.IsUnbordered (Text.bytes f.name) := by
  cases f <;> decide +kernel

/-- Searching for the names one after the other, and sorting what is found by where it starts, gives
the same calls. -/
theorem calls_eq_mergeSort (t : Text) :
    (ofText t).calls =
      (MergeFunction.all.flatMap fun f =>
        (Mark.occurrences (Text.bytes f.name) 0 (ofText t).marks).filterMap
          ((ofText t).callOf? f)).mergeSort fun c c' => c.start ≤ c'.start := by
  have hsorted := pairwise_calls t
  rw [calls, callsFrom_eq_foundFrom] at hsorted ⊢
  apply foundFrom_eq_mergeSort Call.start hsorted
  · intro f _
    exact isUnbordered_name f
  · intro f
    rfl
  · intro f ms c hc
    exact startsWith_of_callOf? hc

/-- The calls of a document are in order and start at different places. There is one wherever a
merge function is called and nowhere else, its opening parenthesis is in no comment, and its
arguments are the text between its parentheses. A search for one name after the other finds the same
calls. -/
theorem calls_exact (t : Text) :
    (ofText t).calls.Pairwise (fun c c' => c.start < c'.start) ∧
    (∀ f start opening close, (ofText t).IsCalledAt f start opening close ↔
      ∃ args, ⟨f, args, opening + 1, start, close + 1⟩ ∈ (ofText t).calls) ∧
    (∀ c ∈ (ofText t).calls, ∃ opening close, c.argsStart = opening + 1 ∧ c.stop = close + 1 ∧
      (ofText t).comments.contains opening = false ∧ t.HasAt (opening + 1) c.args ∧
        close = opening + 1 + Text.byteLength c.args) ∧
    (ofText t).calls =
      (MergeFunction.all.flatMap fun f =>
        (Mark.occurrences (Text.bytes f.name) 0 (ofText t).marks).filterMap
          ((ofText t).callOf? f)).mergeSort fun c c' => c.start ≤ c'.start := by
  refine ⟨pairwise_calls t, ?_, ?_, calls_eq_mergeSort t⟩
  · intro f start opening close
    constructor
    · intro hcalled
      exact ⟨_, mem_calls_iff.2 ⟨f, start, opening, close, hcalled, rfl⟩⟩
    · rintro ⟨args, hin⟩
      rcases mem_calls_iff.1 hin with ⟨f', start', opening', close', hcalled, heq⟩
      cases heq
      exact hcalled
  · intro c hc
    rcases mem_calls_iff.1 hc with ⟨f, start, opening, close, hcalled, rfl⟩
    exact ⟨opening, close, rfl, rfl, args_of_isCalledAt hcalled⟩

/-- A call with a blank behind its name, next to a longer identifier and a comment. -/
theorem calls_exact_behind_identifier :
    (ofText "mycn(x) cn ('a') /*cn()*/".toList).calls =
        [⟨.cn, "'a'".toList, 12, 8, 16⟩] ∧
      (ofText "mycn(x) cn ('a') /*cn()*/".toList).IsCalledAt .cn 8 11 15 ∧
      (ofText "mycn(x) cn ('a') /*cn()*/".toList).comments.contains 11 = false := by
  have hcalls : (ofText "mycn(x) cn ('a') /*cn()*/".toList).calls =
      [⟨.cn, "'a'".toList, 12, 8, 16⟩] := by
    decide +kernel
  have hin : ⟨.cn, "'a'".toList, 12, 8, 16⟩ ∈
      (ofText "mycn(x) cn ('a') /*cn()*/".toList).calls := by
    rw [hcalls]
    exact List.mem_singleton_self _
  rcases calls_exact "mycn(x) cn ('a') /*cn()*/".toList with ⟨-, hplaces, hcall, -⟩
  rcases hcall _ hin with ⟨opening, close, hopening, -, huncommented, -⟩
  obtain rfl : opening = 11 := by
    simp only at hopening
    omega
  exact ⟨hcalls, (hplaces .cn 8 11 15).2 ⟨_, hin⟩, huncommented⟩

end Source

end ClassHighlight
