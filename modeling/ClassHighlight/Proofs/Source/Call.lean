import ClassHighlight.Proofs.Source.Arguments
import ClassHighlight.Proofs.Source.Search

/-!
# Where calls stand

`IsCallAt` says of a call what the search for calls has checked: a name, blanks, and a walk from
the opening parenthesis to the closing one. Calls are found in the order of their names, no call
starts between the name and the parenthesis of another one, and each call starts within an
outermost one.
-/

namespace ClassHighlight

/-! ## Blanks -/

theorem isMarkupBlank_cases {b : UInt8} (h : isMarkupBlank b = true) :
    b = 0x20 ∨ b = 0x09 ∨ b = 0x0A ∨ b = 0x0C ∨ b = 0x0D := by
  simpa [isMarkupBlank, or_assoc] using h

/-- A byte that has no part in quotes, closes no parenthesis and opens no comment. -/
def isPlain (b : UInt8) : Bool :=
  Quote.all.all (fun q => b != q.byte) && b != ')'.toUInt8 &&
    b != '/'.toUInt8 && b != '<'.toUInt8 && b != '#'.toUInt8

theorem isPlain_of_blank {b : UInt8} (h : isMarkupBlank b = true) : isPlain b = true := by
  rcases isMarkupBlank_cases h with rfl | rfl | rfl | rfl | rfl <;> decide

theorem Mark.opens?_of_isPlain {m : Mark} (h : isPlain m.byte = true) : m.opens? = none := by
  cases ho : m.opens? with
  | none => rfl
  | some q =>
    rw [Mark.byte_of_opens? ho] at h
    revert h
    cases q <;> decide

namespace MergeFunction

/-- The bytes of a name are those of an identifier. -/
theorem name_bytes (f : MergeFunction) :
    ∀ b ∈ Text.bytes f.name, Source.isIdentifierByte b = true ∧ isPlain b = true := by
  cases f <;> decide +kernel

theorem name_head (f : MergeFunction) : (Text.bytes f.name)[0]? = some 'c'.toUInt8 := by
  cases f <;> decide

/-- No name is the start of another one. -/
theorem eq_of_name_prefix {f g : MergeFunction} {bs : List UInt8}
    (hf : Text.bytes f.name <+: bs) (hg : Text.bytes g.name <+: bs) : f = g := by
  have hnot : ∀ f g : MergeFunction, Text.bytes f.name <+: Text.bytes g.name → f = g := by
    intro f g
    cases f <;> cases g <;> decide
  -- of two prefixes of one list, the shorter one is a prefix of the other
  rcases Nat.le_total (Text.bytes f.name).length (Text.bytes g.name).length with hle | hle
  · exact hnot f g (List.prefix_of_prefix_length_le hf hg hle)
  · exact (hnot g f (List.prefix_of_prefix_length_le hg hf hle)).symm

end MergeFunction

/-! ## What a call is -/

/-- A call of a document: its name, blanks, and the parentheses around its arguments. -/
structure IsCallAt (bs : List UInt8) (comments : CommentMap) (c : Call) : Prop where
  /-- The name stands at the start. -/
  name : Text.bytes c.function.name <+: bs.drop c.start
  /-- The name is not the end of an identifier. -/
  apart : ∀ b, 1 ≤ c.start → bs[c.start - 1]? = some b → Source.isIdentifierByte b = false
  /-- The name does not start in a comment. -/
  uncommented : comments.contains c.start = false
  /-- The arguments stand behind the name and a parenthesis. -/
  behind : c.start + (Text.bytes c.function.name).length < c.argsStart
  /-- Between the name and the parenthesis there are blanks only. -/
  blanks : ∀ j, c.start + (Text.bytes c.function.name).length ≤ j → j + 1 < c.argsStart →
    ∃ b, bs[j]? = some b ∧ isMarkupBlank b = true
  /-- The parenthesis opens the arguments. -/
  opening : bs[c.argsStart - 1]? = some '('.toUInt8
  /-- The walk from there finds the closing parenthesis. -/
  closing : closingSince bs comments (c.argsStart - 1) (c.argsStart - 1) 0 = some (c.stop - 1)
  /-- The call ends behind that one. -/
  positive : 1 ≤ c.stop

section CallAt

variable (t : Text)

/-- The call found at an index is a call that starts there, with the text between its parentheses
as arguments. -/
theorem callOf?_spec {f : MergeFunction} {i : Nat} {c : Call}
    (h : (Source.ofText t).callOf? f ((Mark.ofBytes (Text.bytes t)).drop i) = some c) :
    c.start = i ∧ c.function = f ∧
      c.args = (Source.ofText t).slice ⟨c.argsStart, c.stop - 1⟩ ∧
      IsCallAt (Text.bytes t) (Source.ofText t).comments c := by
  by_cases hi : i < (Text.bytes t).length
  · rcases Mark.ofBytes_drop hi with ⟨m, hm, hdrop⟩
    rw [hdrop, Source.callOf?, ← hdrop, List.drop_drop] at h
    by_cases hstart : (Mark.startsWith (Text.bytes f.name) ((Mark.ofBytes (Text.bytes t)).drop i) &&
        !m.previous.any Source.isIdentifierByte &&
        !(Source.ofText t).comments.contains m.offset) = true
    · rw [if_pos hstart] at h
      simp only [Bool.and_eq_true, Bool.not_eq_true', Mark.offset_of_getElem? hm] at hstart
      rcases hstart with ⟨⟨hname, hapart⟩, hout⟩
      rcases Mark.dropBlanks_drop (Text.bytes t) (i + (Text.bytes f.name).length) with
        ⟨k, ⟨hk, hblanks⟩, hbehind⟩
      rw [hbehind] at h
      by_cases hlt : k < (Text.bytes t).length
      · rcases Mark.ofBytes_drop hlt with ⟨p, hp, hpdrop⟩
        rw [hpdrop] at h
        simp only at h
        by_cases hparen : (p.byte == '('.toUInt8) = true
        · rw [if_pos hparen, ← hpdrop] at h
          rcases Option.map_eq_some_iff.1 h with ⟨close, hclose, rfl⟩
          rw [beq_iff_eq] at hparen
          rw [Mark.offset_of_getElem? hm, Mark.offset_of_getElem? hp]
          rw [Mark.any_previous_eq_false_iff Source.isIdentifierByte hm] at hapart
          refine ⟨rfl, rfl, rfl, ?_, hapart, hout, by simp only; omega, ?_, ?_, ?_, by simp⟩
          · rw [Mark.startsWith_iff, List.map_drop, Mark.map_byte_ofBytes] at hname
            exact hname
          · intro j hj hbefore
            exact hblanks j hj (by simp only at hbefore; omega)
          · rw [← hparen]
            exact Mark.byte_of_getElem? hp
          · -- at the parenthesis the walk has just started
            show closingSince (Text.bytes t) (Source.ofText t).comments k k 0 = some close
            unfold closingSince
            rw [openSince_of_le (Nat.le_refl _)]
            exact hclose
        · rw [if_neg hparen] at h
          cases h
      · rw [Mark.ofBytes_drop_of_le (by omega)] at h
        cases h
    · rw [if_neg hstart] at h
      cases h
  · rw [Mark.ofBytes_drop_of_le (by omega)] at h
    cases h

end CallAt

namespace IsCallAt

section Head

variable {bs : List UInt8} {comments : CommentMap} {c : Call}

/-- The bytes of the name are those of an identifier. -/
theorem name_getElem? (h : IsCallAt bs comments c) {j : Nat} (hj : c.start ≤ j)
    (hlt : j < c.start + (Text.bytes c.function.name).length) :
    ∃ b, bs[j]? = some b ∧ Source.isIdentifierByte b = true ∧ isPlain b = true := by
  have hin : j - c.start < (Text.bytes c.function.name).length := by omega
  have hget := getElem?_of_prefix_drop h.name hin
  rw [show c.start + (j - c.start) = j by omega, List.getElem?_eq_getElem hin] at hget
  exact ⟨_, hget, c.function.name_bytes _ (List.getElem_mem hin)⟩

theorem start_getElem? (h : IsCallAt bs comments c) : bs[c.start]? = some 'c'.toUInt8 := by
  have hhead := c.function.name_head
  rw [← hhead]
  exact getElem?_of_prefix_drop h.name (List.getElem?_eq_some_iff.1 hhead).1

/-- Before the arguments a call has neither quotes nor closing parentheses nor comments. -/
theorem head_plain (h : IsCallAt bs comments c) {j : Nat} (hj : c.start ≤ j)
    (hlt : j < c.argsStart) : ∃ b, bs[j]? = some b ∧ isPlain b = true := by
  by_cases hname : j < c.start + (Text.bytes c.function.name).length
  · rcases h.name_getElem? hj hname with ⟨b, hb, -, hplain⟩
    exact ⟨b, hb, hplain⟩
  · by_cases hblank : j + 1 < c.argsStart
    · rcases h.blanks j (by omega) hblank with ⟨b, hb, hblank⟩
      exact ⟨b, hb, isPlain_of_blank hblank⟩
    · have hbehind := h.behind
      refine ⟨'('.toUInt8, ?_, by decide⟩
      rw [show j = c.argsStart - 1 by omega]
      exact h.opening

/-- No call starts between the name of another one and its arguments. -/
theorem argsStart_le (h : IsCallAt bs comments c) {c' : Call} (h' : IsCallAt bs comments c')
    (hlt : c.start < c'.start) : c.argsStart ≤ c'.start := by
  have hc := h'.start_getElem?
  by_cases hname : c'.start ≤ c.start + (Text.bytes c.function.name).length ∧ c'.start ≠
      c.start + (Text.bytes c.function.name).length
  · -- the byte before the second name would be part of the first one
    rcases h.name_getElem? (j := c'.start - 1) (by omega) (by omega) with ⟨b, hb, hidentifier, -⟩
    rw [h'.apart b (by omega) hb] at hidentifier
    cases hidentifier
  · by_cases hblank : c'.start + 1 < c.argsStart
    · -- the second name would start with a blank
      rcases h.blanks c'.start (by omega) hblank with ⟨b, hb, hblank⟩
      rw [hc] at hb
      cases hb
      exact absurd hblank (by decide)
    · by_cases hparen : c'.start + 1 = c.argsStart
      · -- the second name would start with a parenthesis
        have hopening := h.opening
        rw [show c.argsStart - 1 = c'.start by omega, hc] at hopening
        exact absurd hopening (by decide)
      · omega

/-- A quote tracker that is outside quotes at the name is so at the arguments. -/
theorem openAt_argsStart {skipped : Nat → Bool} (h : IsCallAt bs comments c)
    (hopen : openAt bs skipped c.start = none) {j : Nat} (hj : c.start ≤ j)
    (hle : j ≤ c.argsStart) : openAt bs skipped j = none := by
  induction j, hj using Nat.le_induction with
  | base => exact hopen
  | succ j hj ih =>
    by_cases hskip : skipped j = true
    · rw [openAt_succ_of_skipped hskip]
      exact ih (by omega)
    · rw [Bool.not_eq_true] at hskip
      rcases h.head_plain hj (by omega) with ⟨b, hb, hplain⟩
      rcases Mark.exists_mark hb with ⟨m, hm, rfl, -⟩
      rw [openAt_succ hm hskip, ih (by omega), QuoteState.step_none,
        Mark.opens?_of_isPlain hplain]

/-- No comment starts between the name of a call and its arguments. -/
theorem uncommented_head (h : IsCallAt bs (CommentMap.ofMarks (Mark.ofBytes bs)) c) {j : Nat}
    (hj : c.start ≤ j) (hlt : j < c.argsStart) :
    (CommentMap.ofMarks (Mark.ofBytes bs)).contains j = false := by
  rw [← Bool.not_eq_true]
  intro hin
  rw [CommentMap.contains_eq_coveredBy, coveredBy_iff] at hin
  rcases hin with ⟨r, hr, hle, hstop⟩
  by_cases hstart : c.start ≤ r.start
  · -- an opener would stand among the bytes before the arguments
    rcases h.head_plain hstart (by omega) with ⟨b, hb, hplain⟩
    rcases (CommentMap.isCommentMap_ranges bs).opened r hr with ⟨-, form, n, hopener, -⟩
    rcases Mark.exists_mark hb with ⟨m, -, hbyte, hdrop⟩
    rw [hdrop] at hopener
    have hfirst := (CommentForm.opener?_spec hopener).2.2
    rw [hbyte] at hfirst
    rcases hfirst with rfl | rfl | rfl <;> exact absurd hplain (by decide)
  · -- a comment from before would cover the name
    have hname : (CommentMap.ofMarks (Mark.ofBytes bs)).contains c.start = true := by
      rw [CommentMap.contains_eq_coveredBy, coveredBy_iff]
      exact ⟨r, hr, by omega, by omega⟩
    rw [h.uncommented] at hname
    cases hname

/-- The search for the closing parenthesis may start behind the opening one. -/
theorem closing_args (h : IsCallAt bs (CommentMap.ofMarks (Mark.ofBytes bs)) c) :
    closingSince bs (CommentMap.ofMarks (Mark.ofBytes bs)) (c.argsStart - 1) c.argsStart 1 =
      some (c.stop - 1) := by
  have hbehind := h.behind
  have hstep := closingSince_of_opening (Nat.le_refl _) h.opening
    (openSince_of_le (Nat.le_refl _)) (h.uncommented_head (by omega) (by omega)) 0
  rw [h.closing, show c.argsStart - 1 + 1 = c.argsStart by omega] at hstep
  exact hstep.symm

/-- The walk over the arguments may start at the opening parenthesis or behind it. -/
theorem openSince_paren (h : IsCallAt bs comments c) {j : Nat} (hj : c.argsStart ≤ j) :
    openSince bs comments (c.argsStart - 1) j = openSince bs comments c.argsStart j := by
  have hbehind := h.behind
  refine openSince_congr (by omega) (Nat.le_refl _) ?_ hj
  rw [openSince_of_le (Nat.le_refl c.argsStart)]
  rcases Mark.exists_mark h.opening with ⟨m, hm, hbyte, -⟩
  have hnext := @openSince_succ bs comments (c.argsStart - 1) _ m hm (Nat.le_refl _)
  rw [show c.argsStart - 1 + 1 = c.argsStart by omega] at hnext
  rw [hnext, openSince_of_le (Nat.le_refl _), QuoteState.step_none,
    opens?_of_paren (Or.inl hbyte)]
  split <;> rfl

/-- The arguments end within the document, outside quotes, with a closing parenthesis. -/
theorem stop_spec (h : IsCallAt bs comments c) :
    c.argsStart < c.stop ∧ c.stop ≤ bs.length ∧ bs[c.stop - 1]? = some ')'.toUInt8 ∧
      openSince bs comments c.argsStart (c.stop - 1) = none := by
  rcases closingSince_spec (Nat.le_refl _) h.closing with ⟨hle, hbyte, hopen, -⟩
  have hbehind := h.behind
  have hpositive := h.positive
  -- one parenthesis opens and the other one closes, so they are not the same
  have hne : c.stop - 1 ≠ c.argsStart - 1 := by
    intro heq
    have hopening := h.opening
    rw [← heq, hbyte] at hopening
    revert hopening
    decide
  have hlt := (List.getElem?_eq_some_iff.1 hbyte).1
  refine ⟨by omega, by omega, hbyte, ?_⟩
  rw [← h.openSince_paren (by omega)]
  exact hopen

end Head

end IsCallAt

/-! ## The calls in order -/

namespace Source

variable {t : Text}

theorem startsWith_of_callOf? {source : Source} {f : MergeFunction} {ms : List Mark} {c : Call}
    (h : source.callOf? f ms = some c) : Mark.startsWith (Text.bytes f.name) ms = true := by
  cases ms with
  | nil => cases h
  | cons m rest =>
    rw [callOf?] at h
    split at h
    · rename_i hstart
      rw [Bool.and_eq_true, Bool.and_eq_true] at hstart
      exact hstart.1.1
    · cases h

theorem callsFrom_eq_foundFrom (source : Source) (ms : List Mark) :
    source.callsFrom ms = foundFrom source.callOf? MergeFunction.all ms := by
  induction ms with
  | nil => rfl
  | cons m rest ih => rw [callsFrom, ih, foundFrom_cons]

theorem mem_callsFrom {source : Source} {ms : List Mark} {c : Call} :
    c ∈ source.callsFrom ms ↔ ∃ i f, source.callOf? f (ms.drop i) = some c := by
  rw [callsFrom_eq_foundFrom, mem_foundFrom]
  constructor
  · rintro ⟨i, f, -, hf⟩
    exact ⟨i, f, hf⟩
  · rintro ⟨i, f, hf⟩
    exact ⟨i, f, by cases f <;> decide, hf⟩

/-- Each call stands in the document as `IsCallAt` says, with the text between its parentheses as
arguments. -/
theorem isCallAt_of_mem {c : Call} (h : c ∈ (ofText t).calls) :
    IsCallAt (Text.bytes t) (ofText t).comments c ∧
      c.args = (ofText t).slice ⟨c.argsStart, c.stop - 1⟩ := by
  rcases mem_callsFrom.1 h with ⟨i, f, hf⟩
  rcases callOf?_spec t hf with ⟨-, -, hargs, hat⟩
  exact ⟨hat, hargs⟩

theorem start_lt_stop_of_mem_calls {c : Call} (h : c ∈ (ofText t).calls) : c.start < c.stop := by
  have hat := (isCallAt_of_mem h).1
  have hbehind := hat.behind
  rcases hat.stop_spec with ⟨hlt, -⟩
  omega

/-- The calls are in the order of their names, and no two names start at one place. -/
theorem pairwise_calls (t : Text) :
    (ofText t).calls.Pairwise fun c c' => c.start < c'.start := by
  have hstart : ∀ i f c, (ofText t).callOf? f ((ofText t).marks.drop i) = some c →
      c.start = i := by
    intro i f c hc
    exact (callOf?_spec t hc).1
  rw [calls, callsFrom_eq_foundFrom]
  apply pairwise_foundFrom (by decide) (fun _ => rfl)
  · -- two names at one place are the same
    intro i f _ g _ c c' hc hc'
    exact MergeFunction.eq_of_name_prefix (Mark.startsWith_iff.1 (startsWith_of_callOf? hc))
      (Mark.startsWith_iff.1 (startsWith_of_callOf? hc'))
  · intro i j hlt f _ g _ c c' hc hc'
    rw [hstart i f c hc, hstart j g c' hc']
    exact hlt

end Source

/-! ## Outermost calls -/

namespace Call

theorem mem_of_mem_outermostFrom {covered : Nat} {calls : List Call} {c : Call}
    (h : c ∈ outermostFrom covered calls) : c ∈ calls := by
  induction calls generalizing covered with
  | nil => exact h
  | cons call rest ih =>
    rw [outermostFrom] at h
    split at h
    · exact List.mem_cons_of_mem _ (ih h)
    · rcases List.mem_cons.1 h with rfl | h
      · exact List.mem_cons_self
      · exact List.mem_cons_of_mem _ (ih h)

/-- A call that is not an outermost one starts within one that starts earlier. -/
theorem exists_outermostFrom {calls : List Call}
    (hsorted : calls.Pairwise fun c c' => c.start < c'.start)
    (hpositive : ∀ c ∈ calls, c.start < c.stop) {covered : Nat} {c : Call} (hc : c ∈ calls) :
    c.start < covered ∨ ∃ o ∈ outermostFrom covered calls,
      (o = c ∨ o.start < c.start) ∧ c.start < o.stop := by
  induction hsorted generalizing covered with
  | nil => cases hc
  | @cons call rest hbefore _ ih =>
    have hpos : ∀ c ∈ rest, c.start < c.stop := fun c hc =>
      hpositive c (List.mem_cons_of_mem _ hc)
    rw [outermostFrom]
    by_cases hcovered : call.start < covered
    · -- the first call starts within an earlier outermost one
      rw [if_pos hcovered]
      rcases List.mem_cons.1 hc with rfl | hc
      · exact Or.inl hcovered
      · exact ih hpos hc
    · rw [if_neg hcovered]
      right
      rcases List.mem_cons.1 hc with rfl | hc
      · exact ⟨c, List.mem_cons_self, Or.inl rfl, hpositive c List.mem_cons_self⟩
      · rcases @ih hpos call.stop hc with hlt | ⟨o, ho, hstart⟩
        · -- the call starts within the first one, which is kept
          exact ⟨call, List.mem_cons_self, Or.inr (hbefore c hc), hlt⟩
        · exact ⟨o, List.mem_cons_of_mem _ ho, hstart⟩

end Call

end ClassHighlight
