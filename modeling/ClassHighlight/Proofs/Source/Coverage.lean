import ClassHighlight.Proofs.Source.Code

/-!
# What the outermost calls cover

The candidates of a document take their literals from the outermost calls alone. A literal of
another call is among them exactly when the walk over the arguments of an outermost call stands
outside quotes where the literal starts. It does so when the calls start in code, since their
walks agree then, and calls in code are nested or apart. A name inside a string literal starts a
walk that sees quotes the other way round, and may hide the literals of a call in code.
-/

namespace ClassHighlight

namespace Source

section Coverage

variable {t : Text} {c : Call} {l : Candidate}

/-- Where a call in code starts within another one, the walk over the arguments of the outer call
stands outside quotes at the literals of the inner one. -/
theorem isArgumentCode_of_isCode {o : Call} (ho : o ∈ (ofText t).calls)
    (hc : c ∈ (ofText t).calls) (hocode : (ofText t).IsCode o.start)
    (hccode : (ofText t).IsCode c.start) (hlt : o.start < c.start) (hwithin : c.start < o.stop)
    (hl : l ∈ (ofText t).literals c) : (ofText t).IsArgumentCode o (l.base - 1) := by
  have hnested := nested_of_isCode ho hc hocode hccode hlt hwithin
  have hbehind := (isCallAt_of_mem hc).1.behind
  have hcode := (covers_of_mem_literals hc hl).2
  exact (isArgumentCode_iff_of_isCode ho hc hocode hccode (by omega) hnested.2 hcode.1
    hcode.2.1).2 hcode

/-- A literal of a call in code is lost from the candidates of the document exactly when no
outermost call sees code where it starts. None is lost when every outermost call that the call
starts in starts in code itself. -/
theorem literals_covered_iff (hc : c ∈ (ofText t).calls)
    (hcode : (ofText t).IsCode c.start) :
    (∀ l ∈ (ofText t).literals c, l ∈ (ofText t).candidates ↔
      ∃ o ∈ Call.outermost (ofText t).calls, (ofText t).IsArgumentCode o (l.base - 1)) ∧
    ((∀ o ∈ Call.outermost (ofText t).calls, o.start ≤ c.start → c.start < o.stop →
        (ofText t).IsCode o.start) →
      ∀ l ∈ (ofText t).literals c, l ∈ (ofText t).candidates) := by
  have houtermost : ∀ o ∈ Call.outermost (ofText t).calls, o ∈ (ofText t).calls :=
    fun o ho => Call.mem_of_mem_outermostFrom ho
  constructor
  · -- a literal is a candidate if an outermost call has it, and that is the case if it sees it
    intro l hl
    rw [mem_candidates_of_literal hl]
    constructor
    · rintro ⟨o, ho, hlo⟩
      exact ⟨o, ho, (mem_literals_iff_isArgumentCode (houtermost o ho) hc hl).1 hlo⟩
    · rintro ⟨o, ho, hin⟩
      exact ⟨o, ho, (mem_literals_iff_isArgumentCode (houtermost o ho) hc hl).2 hin⟩
  · -- the outermost call that the call starts in has all its literals
    intro hall l hl
    have hpositive : ∀ c ∈ (ofText t).calls, c.start < c.stop := by
      intro c hc
      have hat := (isCallAt_of_mem hc).1
      have hbehind := hat.behind
      rcases hat.stop_spec with ⟨hlt, -⟩
      omega
    rw [mem_candidates_of_literal hl]
    rcases @Call.exists_outermostFrom _ (pairwise_calls t) hpositive 0 c hc with
      hlt | ⟨o, ho, rfl | hstart, hwithin⟩
    · omega
    · exact ⟨o, ho, hl⟩
    · have hocode := hall o ho (by omega) hwithin
      have hin := isArgumentCode_of_isCode (houtermost o ho) hc hocode hcode hstart hwithin hl
      exact ⟨o, ho, (mem_literals_iff_isArgumentCode (houtermost o ho) hc hl).2 hin⟩

/-- A nested call in code loses no literal to the call around it. -/
theorem literals_covered_nested :
    ⟨.clsx, "'a'".toList, 8, 3, 12⟩ ∈ (ofText "cn(clsx('a'))".toList).calls ∧
    (ofText "cn(clsx('a'))".toList).IsCode 3 ∧
    (∀ o ∈ Call.outermost (ofText "cn(clsx('a'))".toList).calls, o.start ≤ 3 → 3 < o.stop →
      (ofText "cn(clsx('a'))".toList).IsCode o.start) ∧
    ∀ l ∈ (ofText "cn(clsx('a'))".toList).literals ⟨.clsx, "'a'".toList, 8, 3, 12⟩,
      l ∈ (ofText "cn(clsx('a'))".toList).candidates := by
  have hc : ⟨.clsx, "'a'".toList, 8, 3, 12⟩ ∈ (ofText "cn(clsx('a'))".toList).calls := by
    decide +kernel
  have hcode : (ofText "cn(clsx('a'))".toList).IsCode 3 := by
    decide +kernel
  have houter : ∀ o ∈ Call.outermost (ofText "cn(clsx('a'))".toList).calls, o.start ≤ 3 →
      3 < o.stop → (ofText "cn(clsx('a'))".toList).IsCode o.start := by
    decide +kernel
  exact ⟨hc, hcode, houter, (literals_covered_iff hc hcode).2 houter⟩

/-- A name in a string literal hides a call in code: its walk takes the end of the literal for a
quote that opens one, and passes over the call as quoted text. -/
theorem literal_hidden_by_quoted_name :
    ⟨.cn, "'a'".toList, 12, 9, 16⟩ ∈ (ofText "\"cn(\"/**/cn('a')\")\"".toList).calls ∧
    (ofText "\"cn(\"/**/cn('a')\")\"".toList).IsCode 9 ∧
    ⟨"a".toList, 13, .argument, .single⟩ ∈
      (ofText "\"cn(\"/**/cn('a')\")\"".toList).literals ⟨.cn, "'a'".toList, 12, 9, 16⟩ ∧
    ⟨"a".toList, 13, .argument, .single⟩ ∉
      (ofText "\"cn(\"/**/cn('a')\")\"".toList).candidates := by
  decide +kernel

end Coverage

end Source

end ClassHighlight
