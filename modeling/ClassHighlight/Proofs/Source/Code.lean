import ClassHighlight.Proofs.Source.Candidate

/-!
# Calls in code

A call is in code when its name is, as the comment scan sees it. The walks over the arguments of
such calls all agree with the quote tracker, and so with each other. Two of these calls are
therefore apart, or the later one lies between the parentheses of the earlier one and has just
those of its literals that lie between its own.
-/

namespace ClassHighlight

/-- Whether a span lies between the parentheses of a call. -/
def Call.covers (call : Call) (s : Span) : Bool :=
  call.argsStart ≤ s.start && s.stop < call.stop

theorem Call.covers_iff {call : Call} {s : Span} :
    call.covers s = true ↔ call.argsStart ≤ s.start ∧ s.stop < call.stop := by
  simp [covers]

namespace Source

/-- An offset is in code: in no comment, and a tracker that reads the bytes outside the comments
is outside quotes there. -/
def IsCode (source : Source) (offset : Nat) : Prop :=
  source.comments.contains offset = false ∧
    openAt (Text.bytes source.text) source.comments.contains offset = none

instance (source : Source) (offset : Nat) : Decidable (source.IsCode offset) :=
  inferInstanceAs (Decidable (_ ∧ _))

/-- An offset lies between the parentheses of a call, and the walk over the arguments stands
outside quotes there. -/
def IsArgumentCode (source : Source) (call : Call) (offset : Nat) : Prop :=
  call.argsStart ≤ offset ∧ offset + 1 < call.stop ∧
    openSince (Text.bytes source.text) source.comments call.argsStart offset = none

instance (source : Source) (call : Call) (offset : Nat) :
    Decidable (source.IsArgumentCode call offset) :=
  inferInstanceAs (Decidable (_ ∧ _ ∧ _))

/-! ## Shared literals -/

section Shared

variable {t : Text} {c : Call} {l : Candidate}

/-- The literals of a call lie between its parentheses, and each opens outside quotes. -/
theorem covers_of_mem_literals (hc : c ∈ (ofText t).calls) (hl : l ∈ (ofText t).literals c) :
    c.covers l.span = true ∧ (ofText t).IsArgumentCode c (l.base - 1) := by
  rcases (mem_literals hc).1 hl with ⟨q, body, hbody, hbefore, rfl⟩
  have hafter := hbody.after
  have hordered := hbody.ordered
  rw [(isDelimited_of_isLiteral hbody).span_eq, Call.covers_iff]
  simp only
  refine ⟨⟨by omega, by omega⟩, by omega, by omega, hbody.outside⟩

/-- Where the walk over the arguments of a call meets the first delimiter of some literal outside
quotes, the literal is one of that call. -/
theorem mem_literals_iff_isArgumentCode {o : Call} (ho : o ∈ (ofText t).calls)
    (hc : c ∈ (ofText t).calls) (hl : l ∈ (ofText t).literals c) :
    l ∈ (ofText t).literals o ↔ (ofText t).IsArgumentCode o (l.base - 1) := by
  constructor
  · intro hlo
    exact (covers_of_mem_literals ho hlo).2
  · rintro ⟨hge, hbefore, houtside⟩
    rcases (mem_literals hc).1 hl with ⟨q, body, hbody, -, rfl⟩
    have hafter := hbody.after
    have hmoved := hbody.transfer (by simp only at hge; omega) houtside
    refine (mem_literals ho).2 ⟨q, body, hmoved, ?_, rfl⟩
    -- the closing parenthesis stands outside quotes, so it cannot be part of the body
    rcases (isCallAt_of_mem ho).1.stop_spec with ⟨hlt, -, -, hopen⟩
    refine Nat.lt_of_not_le fun hnot => ?_
    simp only at hbefore
    have := hmoved.within (o.stop - 1) (by omega) (by omega)
    rw [hopen] at this
    cases this

/-- The walk over the arguments of a call in code agrees with the tracker. -/
theorem openSince_eq_openAt_of_isCode (hc : c ∈ (ofText t).calls)
    (hcode : (ofText t).IsCode c.start) {i : Nat} (hi : c.argsStart ≤ i)
    (hle : i ≤ (Text.bytes t).length) :
    openSince (Text.bytes t) (ofText t).comments c.argsStart i =
      openAt (Text.bytes t) (ofText t).comments.contains i := by
  have hat := (isCallAt_of_mem hc).1
  have hbehind := hat.behind
  have hopen := hat.openAt_argsStart hcode.2 (by omega) (Nat.le_refl _)
  exact openSince_eq_openAt hopen hi hle

end Shared

/-! ## Nested calls -/

section Nested

variable {t : Text} {a b : Call} {l : Candidate}

/-- Where a call in code starts within another one, the search for the closing parenthesis of the
outer call comes to the parenthesis of the inner one with at least one more of them open. -/
theorem closingSince_of_nested (ha : a ∈ (ofText t).calls) (hb : b ∈ (ofText t).calls)
    (hacode : (ofText t).IsCode a.start) (hbcode : (ofText t).IsCode b.start)
    (hlt : a.start < b.start) (hargs : b.argsStart < a.stop) :
    ∃ depth, 2 ≤ depth ∧ closingSince (Text.bytes t) (ofText t).comments (b.argsStart - 1)
      b.argsStart depth = some (a.stop - 1) := by
  have haat := (isCallAt_of_mem ha).1
  have hbat := (isCallAt_of_mem hb).1
  have habehind := haat.behind
  have hbbehind := hbat.behind
  have hle := haat.argsStart_le hbat hlt
  have hstop := haat.stop_spec.2.1
  obtain ⟨depth, hinside, hdepth⟩ := closingSince_passes (k := b.argsStart - 1) (by omega)
    haat.closing_args (by omega) (by omega)
  -- both walks stand outside quotes at the inner parenthesis
  have hstate : openSince (Text.bytes t) (ofText t).comments (a.argsStart - 1)
      (b.argsStart - 1) = openSince (Text.bytes t) (ofText t).comments (b.argsStart - 1)
      (b.argsStart - 1) := by
    rw [haat.openSince_paren (by omega),
      openSince_eq_openAt_of_isCode ha hacode (by omega) (by omega),
      openSince_of_le (Nat.le_refl _)]
    exact hbat.openAt_argsStart hbcode.2 (by omega) (by omega)
  have hstep := closingSince_of_opening (Nat.le_refl _) hbat.opening
    (openSince_of_le (Nat.le_refl _)) (hbat.uncommented_head (by omega) (by omega)) depth
  have hfound := closingSince_congr hstate depth
  rw [show b.argsStart - 1 + 1 = b.argsStart by omega] at hstep
  exact ⟨depth + 1, Nat.succ_le_succ (hinside (Nat.le_refl _)),
    hstep.symm.trans (hfound.symm.trans hdepth)⟩

/-- A call in code that starts within another one lies between its parentheses. -/
theorem nested_of_isCode (ha : a ∈ (ofText t).calls) (hb : b ∈ (ofText t).calls)
    (hacode : (ofText t).IsCode a.start) (hbcode : (ofText t).IsCode b.start)
    (hlt : a.start < b.start) (hwithin : b.start < a.stop) :
    a.argsStart ≤ b.start ∧ b.stop < a.stop := by
  have haat := (isCallAt_of_mem ha).1
  have hbat := (isCallAt_of_mem hb).1
  have hbbehind := hbat.behind
  rcases hbat.stop_spec with ⟨hbstop, -, -, -⟩
  have hle := haat.argsStart_le hbat hlt
  -- the outer call does not end before the arguments of the inner one
  have hargs : b.argsStart < a.stop := by
    refine Nat.lt_of_not_le fun hnot => ?_
    rcases hbat.head_plain (j := a.stop - 1) (by omega) (by omega) with ⟨byte, hbyte, hplain⟩
    rw [haat.stop_spec.2.2.1] at hbyte
    cases hbyte
    exact absurd hplain (by decide)
  obtain ⟨depth, htwo, hdepth⟩ := closingSince_of_nested ha hb hacode hbcode hlt hargs
  have hearlier := closingSince_lt (by omega) (Nat.le_refl 1) (by omega) hbat.closing_args hdepth
  exact ⟨hle, by omega⟩

/-- Where a call in code lies between the parentheses of another one, both walks stand outside
quotes at the same places between the inner parentheses. -/
theorem isArgumentCode_iff_of_isCode (ha : a ∈ (ofText t).calls) (hb : b ∈ (ofText t).calls)
    (hacode : (ofText t).IsCode a.start) (hbcode : (ofText t).IsCode b.start)
    (hargs : a.argsStart ≤ b.argsStart) (hstop : b.stop < a.stop) {i : Nat}
    (hi : b.argsStart ≤ i) (hbefore : i + 1 < b.stop) :
    (ofText t).IsArgumentCode a i ↔ (ofText t).IsArgumentCode b i := by
  have hle := (isCallAt_of_mem hb).1.stop_spec.2.1
  unfold IsArgumentCode
  have hsame : openSince (Text.bytes t) (ofText t).comments a.argsStart i =
      openSince (Text.bytes t) (ofText t).comments b.argsStart i := by
    rw [openSince_eq_openAt_of_isCode ha hacode (by omega) (by omega),
      openSince_eq_openAt_of_isCode hb hbcode hi (by omega)]
  constructor
  · rintro ⟨-, -, hopen⟩
    exact ⟨hi, hbefore, hsame.symm.trans hopen⟩
  · rintro ⟨-, -, hopen⟩
    exact ⟨by omega, by omega, hsame.trans hopen⟩

/-- A literal between the parentheses of a call opens behind the opening one. -/
theorem argsStart_lt_of_covers (hb : b ∈ (ofText t).calls) (ha : a ∈ (ofText t).calls)
    (hl : l ∈ (ofText t).literals a) (hcovers : b.covers l.span = true) :
    b.argsStart < l.base := by
  rw [Call.covers_iff] at hcovers
  refine Nat.lt_of_le_of_ne hcovers.1 fun heq => ?_
  -- otherwise the delimiter would be the parenthesis
  rcases isDelimited_of_mem_literals ha hl with ⟨stop, hdelimited⟩
  have hopening := hdelimited.opening
  rw [← show b.argsStart = l.base from heq] at hopening
  rw [show (ofText t).text = t from rfl, (isCallAt_of_mem hb).1.opening] at hopening
  revert hopening
  cases l.quote <;> decide

/-- Calls in code are apart or nested, and a nested one has those literals of the call around it
that lie between its own parentheses. -/
theorem apart_or_nested (ha : a ∈ (ofText t).calls) (hb : b ∈ (ofText t).calls)
    (hacode : (ofText t).IsCode a.start) (hbcode : (ofText t).IsCode b.start)
    (hlt : a.start < b.start) :
    a.stop ≤ b.start ∨
      (a.argsStart ≤ b.start ∧ b.stop < a.stop ∧
        (ofText t).literals b = ((ofText t).literals a).filter fun l => b.covers l.span) := by
  by_cases hapart : a.stop ≤ b.start
  · exact Or.inl hapart
  right
  have hnested := nested_of_isCode ha hb hacode hbcode hlt (by omega)
  have hbbehind := (isCallAt_of_mem hb).1.behind
  refine ⟨hnested.1, hnested.2, ?_⟩
  have hiff : ∀ i, b.argsStart ≤ i → i + 1 < b.stop →
      ((ofText t).IsArgumentCode a i ↔ (ofText t).IsArgumentCode b i) := by
    intro i hi hbefore
    exact isArgumentCode_iff_of_isCode ha hb hacode hbcode (by omega) hnested.2 hi hbefore
  -- both lists are in the order of the document, so their members tell
  apply eq_of_ascending Candidate.base (pairwise_base_literals hb)
    ((pairwise_base_literals ha).filter _)
  intro l
  rw [List.mem_filter]
  constructor
  · intro hl
    obtain ⟨hcovers, hcode⟩ := covers_of_mem_literals hb hl
    have hacode' := (hiff _ hcode.1 hcode.2.1).2 hcode
    exact ⟨(mem_literals_iff_isArgumentCode ha hb hl).2 hacode', hcovers⟩
  · rintro ⟨hl, hcovers⟩
    have hbase := argsStart_lt_of_covers hb ha hl hcovers
    have hacode' := (covers_of_mem_literals ha hl).2
    rw [Call.covers_iff] at hcovers
    have hend : l.base ≤ l.span.stop := Nat.le_add_right _ _
    have hbcode' := (hiff (l.base - 1) (by omega) (by omega)).1 hacode'
    exact (mem_literals_iff_isArgumentCode hb ha hl).2 hbcode'

/-- Neither the quoted parenthesis nor the one in the comment ends a call. -/
theorem nested_clsx_between_literals :
    ⟨.cn, "')', clsx('a' /*)*/), 'b'".toList, 3, 0, 29⟩ ∈
        (ofText "cn(')', clsx('a' /*)*/), 'b')".toList).calls ∧
    ⟨.clsx, "'a' /*)*/".toList, 13, 8, 23⟩ ∈
        (ofText "cn(')', clsx('a' /*)*/), 'b')".toList).calls ∧
    (ofText "cn(')', clsx('a' /*)*/), 'b')".toList).IsCode 0 ∧
    (ofText "cn(')', clsx('a' /*)*/), 'b')".toList).IsCode 8 ∧
    (29 ≤ 8 ∨ (3 ≤ 8 ∧ 23 < 29 ∧
      (ofText "cn(')', clsx('a' /*)*/), 'b')".toList).literals ⟨.clsx, "'a' /*)*/".toList, 13, 8, 23⟩ =
        ((ofText "cn(')', clsx('a' /*)*/), 'b')".toList).literals
          ⟨.cn, "')', clsx('a' /*)*/), 'b'".toList, 3, 0, 29⟩).filter fun l =>
            Call.covers ⟨.clsx, "'a' /*)*/".toList, 13, 8, 23⟩ l.span)) := by
  have ha : ⟨.cn, "')', clsx('a' /*)*/), 'b'".toList, 3, 0, 29⟩ ∈
      (ofText "cn(')', clsx('a' /*)*/), 'b')".toList).calls := by
    decide +kernel
  have hb : ⟨.clsx, "'a' /*)*/".toList, 13, 8, 23⟩ ∈
      (ofText "cn(')', clsx('a' /*)*/), 'b')".toList).calls := by
    decide +kernel
  have hacode : (ofText "cn(')', clsx('a' /*)*/), 'b')".toList).IsCode 0 := by
    decide +kernel
  have hbcode : (ofText "cn(')', clsx('a' /*)*/), 'b')".toList).IsCode 8 := by
    decide +kernel
  exact ⟨ha, hb, hacode, hbcode, apart_or_nested ha hb hacode hbcode (by decide)⟩

end Nested

end Source

end ClassHighlight
