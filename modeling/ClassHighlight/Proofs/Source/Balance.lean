import ClassHighlight.Proofs.Source.Candidate

/-!
# Balanced arguments and closed literals

The search for a closing parenthesis counts the parentheses that its walk meets outside quotes and
comments, and it stops when as many are closed as were opened. So the arguments of every call are
balanced, also where the name of the call stands in a string and its walk sees quotes the other way
round than the comment scan. The search for literals is the same walk over the arguments. It ends
outside quotes, as the closing parenthesis does, and has found all quoted regions on its way.
-/

namespace ClassHighlight

/-! ## Parentheses that count -/

section Counting

variable (bs : List UInt8) (comments : CommentMap) (start : Nat) (b : UInt8)

/-- A byte stands at an index where the walk is outside quotes and comments. -/
def CountsAt (i : Nat) : Prop :=
  start ≤ i ∧ bs[i]? = some b ∧ openSince bs comments start i = none ∧
    comments.contains i = false

instance (i : Nat) : Decidable (CountsAt bs comments start b i) :=
  inferInstanceAs (Decidable (_ ∧ _ ∧ _ ∧ _))

/-- The number of indexes before `stop` at which a byte counts. -/
def countBefore (stop : Nat) : Nat :=
  (List.range stop).countP fun i => CountsAt bs comments start b i

theorem countBefore_start : countBefore bs comments start b start = 0 := by
  unfold countBefore
  rw [List.countP_eq_zero]
  intro i hi hcounts
  have hlt := List.mem_range.1 hi
  have hge := (of_decide_eq_true hcounts).1
  omega

theorem countBefore_succ (i : Nat) :
    countBefore bs comments start b (i + 1) =
      countBefore bs comments start b i + if CountsAt bs comments start b i then 1 else 0 := by
  unfold countBefore
  rw [List.range_succ, List.countP_append, List.countP_singleton]
  simp only [decide_eq_true_eq]

/-- The parentheses between two offsets are balanced, by those that count. -/
structure IsBalanced (stop : Nat) : Prop where
  /-- No part from the start on closes more than it opens. -/
  closed_le : ∀ k, start ≤ k → k ≤ stop →
    countBefore bs comments start ')'.toUInt8 k ≤ countBefore bs comments start '('.toUInt8 k
  /-- All in all as many are closed as are opened. -/
  closed_eq :
    countBefore bs comments start ')'.toUInt8 stop = countBefore bs comments start '('.toUInt8 stop

end Counting

section Depth

variable {bs : List UInt8} {comments : CommentMap} {start : Nat}

/-- The search goes on behind an index with the depth changed by the parenthesis that counts there,
if one does. -/
theorem closingSince_succ {i depth close : Nat} (hi : start ≤ i) (hpos : 1 ≤ depth)
    (h : closingSince bs comments start i depth = some close) (hlt : i < close) :
    ∃ next, 1 ≤ next ∧
      next + (if CountsAt bs comments start ')'.toUInt8 i then 1 else 0) =
        depth + (if CountsAt bs comments start '('.toUInt8 i then 1 else 0) ∧
      closingSince bs comments start (i + 1) next = some close := by
  have hstop := (closingSince_spec hi h).2.1
  have hlength := (List.getElem?_eq_some_iff.1 hstop).1
  rcases Mark.ofBytes_drop (show i < bs.length by omega) with ⟨m, hm, -⟩
  have hcounts : ∀ b : UInt8, CountsAt bs comments start b i ↔
      openSince bs comments start i = none ∧ comments.contains i = false ∧ m.byte = b := by
    intro b
    unfold CountsAt
    rw [Mark.byte_of_getElem? hm, Option.some_inj]
    constructor
    · rintro ⟨-, hbyte, hopen, hout⟩
      exact ⟨hopen, hout, hbyte⟩
    · rintro ⟨hopen, hout, hbyte⟩
      exact ⟨hi, hbyte, hopen, hout⟩
  rw [closingSince_step hm hi] at h
  simp only [← hcounts] at h
  by_cases hopening : CountsAt bs comments start '('.toUInt8 i
  · have hnot : ¬ CountsAt bs comments start ')'.toUInt8 i := by
      intro hclosing
      have hsame := ((hcounts _).1 hopening).2.2.symm.trans ((hcounts _).1 hclosing).2.2
      revert hsame
      decide
    rw [if_pos hopening] at h
    rw [if_pos hopening, if_neg hnot]
    exact ⟨depth + 1, by omega, rfl, h⟩
  · rw [if_neg hopening] at h ⊢
    by_cases hclosing : CountsAt bs comments start ')'.toUInt8 i
    · rw [if_pos hclosing] at h ⊢
      by_cases hlast : depth ≤ 1
      · -- the search would stop here
        rw [if_pos hlast] at h
        have := Option.some.inj h
        omega
      · rw [if_neg hlast] at h
        exact ⟨depth - 1, by omega, by omega, h⟩
    · rw [if_neg hclosing] at h ⊢
      exact ⟨depth, hpos, rfl, h⟩

/-- At every index up to the parenthesis that it finds, the search has counted what was opened and
closed so far, and at least one parenthesis is open. -/
theorem closingSince_depth {depth close k : Nat} (hpos : 1 ≤ depth)
    (h : closingSince bs comments start start depth = some close) (hk : start ≤ k)
    (hle : k ≤ close) :
    ∃ depth', 1 ≤ depth' ∧
      depth' + countBefore bs comments start ')'.toUInt8 k =
        depth + countBefore bs comments start '('.toUInt8 k ∧
      closingSince bs comments start k depth' = some close := by
  induction k, hk using Nat.le_induction with
  | base =>
    rw [countBefore_start, countBefore_start]
    exact ⟨depth, hpos, rfl, h⟩
  | succ k hk ih =>
    rcases ih (by omega) with ⟨depth', hpos', hcount, hsearch⟩
    rcases closingSince_succ hk hpos' hsearch (by omega) with ⟨next, hnext, hstep, hfound⟩
    rw [countBefore_succ, countBefore_succ]
    exact ⟨next, hnext, by omega, hfound⟩

/-- Where the search stops, one parenthesis is open. -/
theorem depth_le_of_closingSince {depth i : Nat} (hi : start ≤ i)
    (h : closingSince bs comments start i depth = some i) : depth ≤ 1 := by
  rcases closingSince_spec hi h with ⟨-, hbyte, hopen, hout⟩
  rcases Mark.exists_mark hbyte with ⟨m, hm, hparen, -⟩
  by_contra hdeep
  rw [closingSince_step hm hi, if_neg, if_pos ⟨hopen, hout, hparen⟩, if_neg hdeep] at h
  · -- the search would go on and stop further on
    have := (closingSince_spec (by omega) h).1
    omega
  · rintro ⟨-, -, hopening⟩
    rw [hparen] at hopening
    revert hopening
    decide

/-- What stands before the parenthesis that closes the first one is balanced. -/
theorem isBalanced_of_closingSince {close : Nat}
    (h : closingSince bs comments start start 1 = some close) :
    IsBalanced bs comments start close := by
  have hle := (closingSince_spec (Nat.le_refl _) h).1
  constructor
  · intro k hk hclose
    rcases closingSince_depth (Nat.le_refl 1) h hk hclose with ⟨depth, hpos, hcount, -⟩
    omega
  · rcases closingSince_depth (Nat.le_refl 1) h hle (Nat.le_refl _) with
      ⟨depth, hpos, hcount, hfound⟩
    have := depth_le_of_closingSince hle hfound
    omega

end Depth

/-! ## The search for literals -/

namespace Source

/-- The marks of the arguments of a call. -/
def argumentMarks (source : Source) (call : Call) : List Mark :=
  (source.marks.drop call.argsStart).take (call.stop - 1 - call.argsStart)

/-- The literal that the search for literals is in behind some marks, with the offset of its
body. -/
def literalOpenAfter (comments : CommentMap) : (open? : Option (Quote × Nat)) → List Mark →
    Option (Quote × Nat)
  | open?, [] => open?
  | none, m :: rest =>
    if comments.contains m.offset then literalOpenAfter comments none rest
    else literalOpenAfter comments (m.opens?.map fun q => (q, m.offset + 1)) rest
  | some (q, start), m :: rest =>
    if m.closes q then literalOpenAfter comments none rest
    else literalOpenAfter comments (some (q, start)) rest

/-- The search goes on behind some marks with the literal that it is in there. -/
theorem literalsFrom_append (comments : CommentMap) (open? : Option (Quote × Nat))
    (ms ms' : List Mark) :
    literalsFrom comments open? (ms ++ ms') =
      literalsFrom comments open? ms ++
        literalsFrom comments (literalOpenAfter comments open? ms) ms' := by
  induction ms generalizing open? with
  | nil => simp [literalsFrom, literalOpenAfter]
  | cons m rest ih =>
    cases open? with
    | none =>
      rw [List.cons_append, literalsFrom, literalsFrom, literalOpenAfter]
      split
      · exact ih none
      · exact ih _
    | some opened =>
      rw [List.cons_append, literalsFrom, literalsFrom, literalOpenAfter]
      split
      · simp only
        split
        · exact ih none
        · rw [ih none, List.cons_append]
      · exact ih _

/-- The search is in a literal exactly where the walk is within quotes. -/
theorem literalOpenAfter_map {bs : List UInt8} {comments : CommentMap} {start stop i : Nat}
    (hstop : stop ≤ bs.length) (hi : start ≤ i) (hle : i ≤ stop) {open? : Option (Quote × Nat)}
    (hopen : openSince bs comments start i = open?.map Prod.fst) :
    (literalOpenAfter comments open? (((Mark.ofBytes bs).take stop).drop i)).map Prod.fst =
      openSince bs comments start stop := by
  induction hk : stop - i generalizing i open? with
  | zero =>
    have hend : ((Mark.ofBytes bs).take stop).drop i = [] :=
      List.drop_eq_nil_of_le (by simp; omega)
    rw [hend, literalOpenAfter, ← hopen]
    congr 1
    omega
  | succ k ih =>
    rcases take_drop_ofBytes (show i < stop by omega) hstop with ⟨m, hm, hdrop⟩
    rw [hdrop]
    cases open? with
    | none =>
      rw [literalOpenAfter, Mark.offset_of_getElem? hm]
      by_cases hin : comments.contains i = true
      · -- a comment is passed over
        rw [if_pos hin]
        exact ih (by omega) (by omega) (openSince_succ_of_comment hm hi hopen hin) (by omega)
      · rw [if_neg hin]
        refine ih (by omega) (by omega) ?_ (by omega)
        rw [openSince_succ_of_code hm hi hopen (by simpa using hin)]
        cases m.opens? <;> rfl
    | some opened =>
      rcases opened with ⟨q, bodyStart⟩
      have hnext := openSince_succ_of_quoted hm hi hopen
      rw [literalOpenAfter]
      by_cases hcloses : m.closes q = true
      · rw [if_pos hcloses] at hnext ⊢
        exact ih (by omega) (by omega) hnext (by omega)
      · rw [if_neg hcloses] at hnext ⊢
        exact ih (by omega) (by omega) hnext (by omega)

/-! ## Calls -/

section Calls

variable {t : Text} {c : Call}

/-- The arguments of a call are balanced. -/
theorem isBalanced_of_mem_calls (hc : c ∈ (ofText t).calls) :
    IsBalanced (Text.bytes t) (ofText t).comments c.argsStart (c.stop - 1) := by
  have hat := (isCallAt_of_mem hc).1
  apply isBalanced_of_closingSince
  rw [← hat.closing_args]
  apply closingSince_congr
  exact (hat.openSince_paren (Nat.le_refl _)).symm

/-- The search for the literals of a call ends outside of them. -/
theorem literalOpenAfter_of_mem_calls (hc : c ∈ (ofText t).calls) :
    literalOpenAfter (ofText t).comments none ((ofText t).argumentMarks c) = none := by
  rcases (isCallAt_of_mem hc).1.stop_spec with ⟨hlt, hle, -, hopen⟩
  have hstate := @literalOpenAfter_map (Text.bytes t) (ofText t).comments c.argsStart (c.stop - 1)
    c.argsStart (by omega) (Nat.le_refl _) (by omega) none (openSince_of_le (Nat.le_refl _))
  rw [hopen, List.drop_take] at hstate
  exact Option.map_eq_none_iff.1 hstate

/-- The parentheses in the arguments of a call are balanced, by those outside comments and outside
the quoted regions of the walk. The search for literals is in none at the end of the arguments, so it
would go on behind them as it started, and it finds exactly those quoted regions whose body does not
start in a comment, each between its delimiters, within the arguments and one behind the other. -/
theorem balanced_and_complete (hc : c ∈ (ofText t).calls) :
    IsBalanced (Text.bytes t) (ofText t).comments c.argsStart (c.stop - 1) ∧
    literalOpenAfter (ofText t).comments none ((ofText t).argumentMarks c) = none ∧
    (∀ ms, literalsFrom (ofText t).comments none ((ofText t).argumentMarks c ++ ms) =
      literalsFrom (ofText t).comments none ((ofText t).argumentMarks c) ++
        literalsFrom (ofText t).comments none ms) ∧
    (∀ l, l ∈ (ofText t).literals c ↔ ∃ q body,
      IsLiteral (Text.bytes t) (ofText t).comments c.argsStart q body ∧ body.stop + 1 < c.stop ∧
        l = ⟨(ofText t).slice body, body.start, .argument, q⟩) ∧
    (∀ l ∈ (ofText t).literals c, (ofText t).IsDelimited l l.span.stop ∧
      c.argsStart < l.base ∧ l.span.stop + 1 < c.stop) ∧
    ((ofText t).literals c).Pairwise fun a b => a.span.stop < b.base := by
  have hended := literalOpenAfter_of_mem_calls hc
  refine ⟨isBalanced_of_mem_calls hc, hended, ?_, fun l => mem_literals hc, ?_, ?_⟩
  · intro ms
    rw [literalsFrom_append, hended]
  · intro l hl
    rcases (mem_literals hc).1 hl with ⟨q, body, hbody, hbefore, rfl⟩
    have hdelimited := isDelimited_of_isLiteral hbody
    rw [hdelimited.span_eq]
    exact ⟨hdelimited, hbody.after, hbefore⟩
  · apply (pairwise_literals hc).imp
    intro a b hbefore
    omega

/-- The name stands in a string, so the walk takes the end of the string for a quote. The quoted
region that it opens starts with a comment and ends within it; neither that region nor the
parenthesis in the rest of the comment counts. -/
theorem balanced_and_complete_out_of_phase :
    ⟨.cn, "\"// \"x)\n, f('a')".toList, 4, 1, 21⟩ ∈
        (ofText "\"cn(\"// \"x)\n, f('a'))".toList).calls ∧
    IsBalanced (Text.bytes "\"cn(\"// \"x)\n, f('a'))".toList)
        (ofText "\"cn(\"// \"x)\n, f('a'))".toList).comments 4 20 ∧
    (ofText "\"cn(\"// \"x)\n, f('a'))".toList).literals
        ⟨.cn, "\"// \"x)\n, f('a')".toList, 4, 1, 21⟩ = [⟨"a".toList, 17, .argument, .single⟩] ∧
    (ofText "\"cn(\"// \"x)\n, f('a'))".toList).IsDelimited
        ⟨"a".toList, 17, .argument, .single⟩ 18 := by
  have hc : ⟨.cn, "\"// \"x)\n, f('a')".toList, 4, 1, 21⟩ ∈
      (ofText "\"cn(\"// \"x)\n, f('a'))".toList).calls := by
    decide +kernel
  have hliterals : (ofText "\"cn(\"// \"x)\n, f('a'))".toList).literals
      ⟨.cn, "\"// \"x)\n, f('a')".toList, 4, 1, 21⟩ = [⟨"a".toList, 17, .argument, .single⟩] := by
    decide +kernel
  rcases balanced_and_complete hc with ⟨hbalanced, -, -, -, hwithin, -⟩
  refine ⟨hc, hbalanced, hliterals, (hwithin _ ?_).1⟩
  rw [hliterals]
  exact List.mem_singleton_self _

end Calls

end Source

end ClassHighlight
