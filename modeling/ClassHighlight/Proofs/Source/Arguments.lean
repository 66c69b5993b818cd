import ClassHighlight.Proofs.Source.CommentMap
import ClassHighlight.Source.Candidate

/-!
# The walk over the arguments of a call

The search for a closing parenthesis and the search for literals make the same walk: from the
opening parenthesis on they follow quotes, and pass over comments that they meet outside quotes.
`openSince` is the quoted region that this walk is in. Both searches are described by it, and where
the walk starts in code it agrees with the tracker of the comment scan.
-/

namespace ClassHighlight

/-- The quoted region that is open before an index, for a walk that starts outside quotes at
`start`, and passes over a comment unless it meets it within quotes. -/
def openSince (bytes : List UInt8) (comments : CommentMap) (start : Nat) : Nat → QuoteState
  | 0 => none
  | i + 1 =>
    match bytes[i]? with
    | some b =>
      if i < start then none
      else if (openSince bytes comments start i).isNone && comments.contains i then none
      else ((openSince bytes comments start i).step (isEscaped bytes i) b).1
    | none => openSince bytes comments start i

section Walk

variable {bs : List UInt8} {comments : CommentMap} {start i : Nat} {m : Mark}

theorem openSince_of_le (h : i ≤ start) : openSince bs comments start i = none := by
  induction i with
  | zero => rfl
  | succ i ih =>
    rw [openSince]
    split
    · rw [if_pos (by omega)]
    · exact ih (by omega)

theorem openSince_succ (hm : (Mark.ofBytes bs)[i]? = some m) (hi : start ≤ i) :
    openSince bs comments start (i + 1) =
      if (openSince bs comments start i).isNone && comments.contains i then none
      else ((openSince bs comments start i).step m.escaped m.byte).1 := by
  rw [openSince, Mark.byte_of_getElem? hm, Mark.escaped_of_getElem? hm]
  simp only
  rw [if_neg (by omega)]

/-- In a comment that the walk meets outside quotes, it stays outside quotes. -/
theorem openSince_succ_of_comment (hm : (Mark.ofBytes bs)[i]? = some m) (hi : start ≤ i)
    (hopen : openSince bs comments start i = none) (hin : comments.contains i = true) :
    openSince bs comments start (i + 1) = none := by
  rw [openSince_succ hm hi, hopen, hin]
  rfl

/-- In code, a quote opens a region. -/
theorem openSince_succ_of_code (hm : (Mark.ofBytes bs)[i]? = some m) (hi : start ≤ i)
    (hopen : openSince bs comments start i = none) (hout : comments.contains i = false) :
    openSince bs comments start (i + 1) = m.opens? := by
  rw [openSince_succ hm hi, hopen, hout, QuoteState.step_none]
  rfl

/-- Within quotes, only what closes them matters. -/
theorem openSince_succ_of_quoted {q : Quote} (hm : (Mark.ofBytes bs)[i]? = some m) (hi : start ≤ i)
    (hopen : openSince bs comments start i = some q) :
    openSince bs comments start (i + 1) = if m.closes q then none else some q := by
  rw [openSince_succ hm hi, hopen, QuoteState.step_some]
  cases m.closes q <;> rfl

theorem openSince_of_length_le (h : bs.length ≤ i) :
    openSince bs comments start (i + 1) = openSince bs comments start i := by
  rw [openSince, List.getElem?_eq_none h]

/-- What opens a quoted region is that quote. -/
theorem getElem?_of_opens {q : Quote} (hopen : openSince bs comments start i = none)
    (hnext : openSince bs comments start (i + 1) = some q) : bs[i]? = some q.byte := by
  by_cases hlt : i < bs.length
  · rcases Mark.ofBytes_drop hlt with ⟨m, hm, -⟩
    by_cases hi : start ≤ i
    · by_cases hin : comments.contains i = true
      · rw [openSince_succ_of_comment hm hi hopen hin] at hnext
        cases hnext
      · rw [openSince_succ_of_code hm hi hopen (by simpa using hin)] at hnext
        rw [Mark.byte_of_getElem? hm, Mark.byte_of_opens? hnext]
    · rw [openSince_of_le (by omega)] at hnext
      cases hnext
  · rw [openSince_of_length_le (by omega), hopen] at hnext
    cases hnext

/-- What closes a quoted region is the quote that opened it. -/
theorem getElem?_of_closes {q : Quote} (hopen : openSince bs comments start i = some q)
    (hnext : openSince bs comments start (i + 1) = none) : bs[i]? = some q.byte := by
  by_cases hlt : i < bs.length
  · rcases Mark.ofBytes_drop hlt with ⟨m, hm, -⟩
    by_cases hi : start ≤ i
    · rw [openSince_succ_of_quoted hm hi hopen] at hnext
      split at hnext
      · rename_i hcloses
        unfold Mark.closes at hcloses
        rw [Bool.and_eq_true, beq_iff_eq] at hcloses
        rw [Mark.byte_of_getElem? hm, hcloses.1]
      · cases hnext
    · rw [openSince_of_le (by omega)] at hopen
      cases hopen
  · rw [openSince_of_length_le (by omega), hopen] at hnext
    cases hnext

end Walk

/-- A walk that starts in code agrees with the tracker that skips the comments: no comment starts
within quotes. -/
theorem openSince_eq_openAt {bs : List UInt8} {start i : Nat}
    (h : openAt bs (CommentMap.ofMarks (Mark.ofBytes bs)).contains start = none)
    (hi : start ≤ i) (hle : i ≤ bs.length) :
    openSince bs (CommentMap.ofMarks (Mark.ofBytes bs)) start i =
      openAt bs (CommentMap.ofMarks (Mark.ofBytes bs)).contains i := by
  induction i, hi using Nat.le_induction with
  | base => rw [openSince_of_le (Nat.le_refl _), h]
  | succ i hi ih =>
    -- in a comment both are outside quotes, and elsewhere both read the byte
    rcases Mark.ofBytes_drop (show i < bs.length by omega) with ⟨m, hm, -⟩
    have hsame := ih (by omega)
    by_cases hin : (CommentMap.ofMarks (Mark.ofBytes bs)).contains i = true
    · have hout : openAt bs (CommentMap.ofMarks (Mark.ofBytes bs)).contains i = none :=
        CommentMap.openAt_of_contains hin
      rw [openAt_succ_of_skipped hin, hout]
      exact openSince_succ_of_comment hm hi (hsame.trans hout) hin
    · rw [Bool.not_eq_true] at hin
      rw [openSince_succ hm hi, openAt_succ hm hin, hsame, hin, Bool.and_false]
      rfl

/-! ## The closing parenthesis -/

section Parentheses

variable {bs : List UInt8} {comments : CommentMap} {start i : Nat}

theorem opens?_of_paren {m : Mark} (h : m.byte = '('.toUInt8 ∨ m.byte = ')'.toUInt8) :
    m.opens? = none := by
  cases ho : m.opens? with
  | none => rfl
  | some q =>
    have hq := Mark.byte_of_opens? ho
    rw [hq] at h
    revert h
    cases q <;> decide

/-- The closing parenthesis that the walk finds from an index on, where `depth` parentheses are
open. -/
def closingSince (bs : List UInt8) (comments : CommentMap) (start i depth : Nat) : Option Nat :=
  closingParen? comments (openSince bs comments start i) depth ((Mark.ofBytes bs).drop i)

/-- One step of the search: only a parenthesis outside quotes and comments counts. -/
theorem closingSince_step {m : Mark} (hm : (Mark.ofBytes bs)[i]? = some m) (hi : start ≤ i)
    (depth : Nat) :
    closingSince bs comments start i depth =
      if openSince bs comments start i = none ∧ comments.contains i = false ∧
          m.byte = '('.toUInt8 then
        closingSince bs comments start (i + 1) (depth + 1)
      else if openSince bs comments start i = none ∧ comments.contains i = false ∧
          m.byte = ')'.toUInt8 then
        if depth ≤ 1 then some i else closingSince bs comments start (i + 1) (depth - 1)
      else
        closingSince bs comments start (i + 1) depth := by
  rcases Mark.ofBytes_drop (Mark.lt_length_of_getElem? hm) with ⟨m', hm', hdrop⟩
  rw [hm] at hm'
  cases hm'
  unfold closingSince
  rw [hdrop, closingParen?, Mark.offset_of_getElem? hm]
  cases hopen : openSince bs comments start i with
  | some q =>
    -- within quotes neither a comment nor a parenthesis counts
    rw [openSince_succ_of_quoted hm hi hopen, QuoteState.step_some]
    simp only [Option.isNone_some, Bool.false_and, reduceCtorEq, false_and, if_false]
    cases m.closes q <;> rfl
  | none =>
    by_cases hin : comments.contains i = true
    · rw [openSince_succ_of_comment hm hi hopen hin]
      simp [hin]
    · -- in code a parenthesis counts, and no parenthesis is a quote
      rw [Bool.not_eq_true] at hin
      rw [openSince_succ_of_code hm hi hopen hin, QuoteState.step_none]
      simp only [Option.isNone_none, hin, Bool.and_false, Bool.false_eq_true, if_false, true_and]
      by_cases hopening : m.byte = '('.toUInt8
      · simp [hopening, opens?_of_paren (Or.inl hopening)]
      · by_cases hclosing : m.byte = ')'.toUInt8
        · simp [hclosing, opens?_of_paren (Or.inr hclosing)]
        · simp only [hopening, hclosing, if_false]
          cases ho : m.opens? with
          | none => simp [hopening, hclosing]
          | some q => rfl

theorem closingSince_of_length_le (h : bs.length ≤ i) (depth : Nat) :
    closingSince bs comments start i depth = none := by
  unfold closingSince
  rw [Mark.ofBytes_drop_of_le h, closingParen?]

/-- Behind an opening parenthesis outside quotes and comments, one parenthesis more is open. -/
theorem closingSince_of_opening (hi : start ≤ i) (hbyte : bs[i]? = some '('.toUInt8)
    (hopen : openSince bs comments start i = none) (hout : comments.contains i = false)
    (depth : Nat) :
    closingSince bs comments start i depth = closingSince bs comments start (i + 1) (depth + 1) := by
  rcases Mark.exists_mark hbyte with ⟨m, hm, hparen, -⟩
  rw [closingSince_step hm hi, if_pos ⟨hopen, hout, hparen⟩]

/-- Searches of two walks that agree at an index find the same parenthesis. -/
theorem closingSince_congr {start' : Nat}
    (h : openSince bs comments start i = openSince bs comments start' i) (depth : Nat) :
    closingSince bs comments start i depth = closingSince bs comments start' i depth := by
  unfold closingSince
  rw [h]

/-- The search stops at a closing parenthesis outside quotes and comments, or goes on; while it goes
on, it does not come out of the parentheses that are open. -/
theorem closingSince_cases {depth close : Nat} (hi : start ≤ i)
    (h : closingSince bs comments start i depth = some close) :
    (close = i ∧ bs[i]? = some ')'.toUInt8 ∧ openSince bs comments start i = none ∧
      comments.contains i = false) ∨
    (i + 1 ≤ bs.length ∧ ∃ depth', (1 ≤ depth → 1 ≤ depth') ∧
      closingSince bs comments start (i + 1) depth' = some close) := by
  by_cases hlt : i < bs.length
  · rcases Mark.ofBytes_drop hlt with ⟨m, hm, -⟩
    rw [closingSince_step hm hi] at h
    split at h
    · exact Or.inr ⟨hlt, depth + 1, by omega, h⟩
    · split at h
      · rename_i hcounts
        split at h
        · cases h
          rcases hcounts with ⟨hopen, hout, hbyte⟩
          refine Or.inl ⟨rfl, ?_, hopen, hout⟩
          rw [Mark.byte_of_getElem? hm, hbyte]
        · exact Or.inr ⟨hlt, depth - 1, by omega, h⟩
      · exact Or.inr ⟨hlt, depth, id, h⟩
  · rw [closingSince_of_length_le (by omega)] at h
    cases h

/-- What the search finds is a closing parenthesis outside quotes and comments. -/
theorem closingSince_spec {depth close : Nat} (hi : start ≤ i)
    (h : closingSince bs comments start i depth = some close) :
    i ≤ close ∧ bs[close]? = some ')'.toUInt8 ∧ openSince bs comments start close = none ∧
      comments.contains close = false := by
  induction hk : bs.length - i generalizing i depth with
  | zero =>
    rw [closingSince_of_length_le (by omega)] at h
    cases h
  | succ k ih =>
    rcases closingSince_cases hi h with ⟨rfl, hfound⟩ | ⟨_, depth', -, h⟩
    · exact ⟨Nat.le_refl _, hfound⟩
    · rcases ih (by omega) h (by omega) with ⟨hle, hfound⟩
      exact ⟨by omega, hfound⟩

/-- On its way the search stands at every index up to the parenthesis, and inside parentheses if it
started there. -/
theorem closingSince_passes {depth close k : Nat} (hi : start ≤ i)
    (h : closingSince bs comments start i depth = some close) (hk : i ≤ k) (hclose : k ≤ close) :
    ∃ depth', (1 ≤ depth → 1 ≤ depth') ∧
      closingSince bs comments start k depth' = some close := by
  induction k, hk using Nat.le_induction with
  | base => exact ⟨depth, id, h⟩
  | succ k hk ih =>
    rcases ih (by omega) with ⟨depth', hinside, h'⟩
    rcases closingSince_cases (by omega) h' with ⟨rfl, -⟩ | ⟨-, next, hnext, hfound⟩
    · -- the search has not stopped yet
      omega
    · exact ⟨next, fun hpos => hnext (hinside hpos), hfound⟩

/-- Where more parentheses are open, the search stops later. -/
theorem closingSince_lt {depth depth' close close' : Nat} (hi : start ≤ i) (hpos : 1 ≤ depth)
    (hdepth : depth < depth') (h : closingSince bs comments start i depth = some close)
    (h' : closingSince bs comments start i depth' = some close') : close < close' := by
  induction hk : bs.length - i generalizing i depth depth' with
  | zero =>
    rw [closingSince_of_length_le (by omega)] at h
    cases h
  | succ k ih =>
    rcases Mark.ofBytes_drop (show i < bs.length by omega) with ⟨m, hm, -⟩
    -- both searches read the same byte, and only the first one may stop at it
    rw [closingSince_step hm hi] at h h'
    split at h
    · rename_i hopening
      rw [if_pos hopening] at h'
      exact ih (by omega) (by omega) (by omega) h h' (by omega)
    · rename_i hopening
      rw [if_neg hopening] at h'
      split at h
      · rename_i hclosing
        rw [if_pos hclosing, if_neg (by omega)] at h'
        have hlater := (closingSince_spec (by omega) h').1
        by_cases hlast : depth ≤ 1
        · rw [if_pos hlast] at h
          cases h
          exact hlater
        · rw [if_neg hlast] at h
          exact ih (by omega) (by omega) (by omega) h h' (by omega)
      · rename_i hclosing
        rw [if_neg hclosing] at h'
        exact ih (by omega) hpos hdepth h h' (by omega)

end Parentheses

/-! ## The literals -/

/-- A literal that the walk meets: its first delimiter stands outside quotes, its body within them
and its last delimiter ends them. A literal whose body starts in a comment does not count. -/
structure IsLiteral (bytes : List UInt8) (comments : CommentMap) (start : Nat) (q : Quote)
    (body : Span) : Prop where
  /-- The first delimiter belongs to the walk. -/
  after : start < body.start
  /-- The first delimiter stands outside quotes. -/
  outside : openSince bytes comments start (body.start - 1) = none
  /-- The body stands within quotes. -/
  within : ∀ i, body.start ≤ i → i ≤ body.stop → openSince bytes comments start i = some q
  /-- The last delimiter ends the quotes. -/
  closed : openSince bytes comments start (body.stop + 1) = none
  /-- The body does not start in a comment. -/
  counted : comments.contains body.start = false
  /-- The body does not end before it starts. -/
  ordered : body.start ≤ body.stop

section Literals

variable {bs : List UInt8} {comments : CommentMap} {start : Nat}

/-- Two walks that agree once agree from then on. -/
theorem openSince_congr {start' k : Nat} (hk : start ≤ k) (hk' : start' ≤ k)
    (h : openSince bs comments start k = openSince bs comments start' k) {i : Nat} (hi : k ≤ i) :
    openSince bs comments start i = openSince bs comments start' i := by
  induction i, hi using Nat.le_induction with
  | base => exact h
  | succ i hi ih =>
    have hle : ¬ i < start := by omega
    have hle' : ¬ i < start' := by omega
    simp only [openSince, ih, hle, hle', if_false]

/-- A literal that one walk meets, another one meets too if it is outside quotes at its first
delimiter. -/
theorem IsLiteral.transfer {start' : Nat} {q : Quote} {body : Span}
    (h : IsLiteral bs comments start q body) (hstart : start' < body.start)
    (houtside : openSince bs comments start' (body.start - 1) = none) :
    IsLiteral bs comments start' q body := by
  have hafter := h.after
  -- from the first delimiter on the two walks agree
  have hsame : ∀ i, body.start - 1 ≤ i →
      openSince bs comments start i = openSince bs comments start' i := by
    intro i hi
    exact openSince_congr (by omega) (by omega) (h.outside.trans houtside.symm) hi
  have hordered := h.ordered
  refine ⟨hstart, houtside, ?_, ?_, h.counted, hordered⟩
  · intro i hi hle
    rw [← hsame i (by omega)]
    exact h.within i hi hle
  · rw [← hsame _ (by omega)]
    exact h.closed

/-- A literal that is open at an index since its body started is one that the walk is still in. -/
structure IsOpenLiteral (bytes : List UInt8) (comments : CommentMap) (start i : Nat) (q : Quote)
    (bodyStart : Nat) : Prop where
  /-- The first delimiter belongs to the walk. -/
  after : start < bodyStart
  /-- The body has started. -/
  started : bodyStart ≤ i
  /-- The first delimiter stands outside quotes. -/
  outside : openSince bytes comments start (bodyStart - 1) = none
  /-- All of the body so far stands within quotes. -/
  within : ∀ k, bodyStart ≤ k → k ≤ i → openSince bytes comments start k = some q

/-- A literal of the walk that starts no earlier than the open one is the open one, closed at the
byte at hand, or starts further on. -/
theorem IsOpenLiteral.eq_or_lt {i bodyStart : Nat} {q q' : Quote} {body : Span}
    (h : IsOpenLiteral bs comments start i q bodyStart)
    (hclosed : openSince bs comments start (i + 1) = none)
    (hbody : IsLiteral bs comments start q' body) (hle : bodyStart ≤ body.start) :
    (q' = q ∧ body = ⟨bodyStart, i⟩) ∨ i + 1 < body.start := by
  have hordered := hbody.ordered
  have hstarted := h.started
  by_cases hfar : i + 1 < body.start
  · exact Or.inr hfar
  left
  -- a later start would lie within the quotes that are open
  have hstart : body.start = bodyStart := by
    rcases Nat.eq_or_lt_of_le hle with heq | hlt
    · exact heq.symm
    · have := h.within (body.start - 1) (by omega) (by omega)
      rw [hbody.outside] at this
      cases this
  -- an earlier end would have closed them, and a later one would keep them open
  have hstop : body.stop = i := by
    rcases Nat.lt_trichotomy body.stop i with hlt | heq | hlt
    · have := h.within (body.stop + 1) (by omega) (by omega)
      rw [hbody.closed] at this
      cases this
    · exact heq
    · have := hbody.within (i + 1) (by omega) (by omega)
      rw [hclosed] at this
      cases this
  constructor
  · have hsame := hbody.within bodyStart (by omega) (by omega)
    rw [h.within bodyStart (Nat.le_refl _) hstarted] at hsame
    exact (Option.some.inj hsame).symm
  · cases body
    simp only at hstart hstop
    rw [hstart, hstop]

/-- A literal starts further on than an index outside quotes. -/
theorem IsLiteral.start_ne {i : Nat} {q : Quote} {body : Span}
    (h : IsLiteral bs comments start q body)
    (hopen : openSince bs comments start i = none) : body.start ≠ i := by
  rintro rfl
  have := h.within body.start (Nat.le_refl _) h.ordered
  rw [hopen] at this
  cases this

variable {stop : Nat}

theorem take_drop_ofBytes {i : Nat} (hi : i < stop) (hstop : stop ≤ bs.length) :
    ∃ m, (Mark.ofBytes bs)[i]? = some m ∧
      ((Mark.ofBytes bs).take stop).drop i = m :: ((Mark.ofBytes bs).take stop).drop (i + 1) := by
  have hlt : i < ((Mark.ofBytes bs).take stop).length := by
    rw [List.length_take, Mark.length_ofBytes]
    omega
  refine ⟨_, ?_, List.drop_eq_getElem_cons hlt⟩
  rw [List.getElem_take]
  exact List.getElem?_eq_getElem (by simp; omega)

/-- Where no literal opens at a byte, those that start behind it start behind the next one. -/
theorem IsLiteral.iff_of_outside {i : Nat} {q : Quote} {body : Span}
    (hnext : openSince bs comments start (i + 1) = none) :
    (IsLiteral bs comments start q body ∧ i < body.start ∧ body.stop < stop) ↔
      (IsLiteral bs comments start q body ∧ i + 1 < body.start ∧ body.stop < stop) := by
  constructor
  · rintro ⟨hbody, hlt, hbefore⟩
    have := hbody.start_ne hnext
    exact ⟨hbody, by omega, hbefore⟩
  · rintro ⟨hbody, hlt, hbefore⟩
    exact ⟨hbody, by omega, hbefore⟩

/-- Where a literal closes, there is that one, unless it does not count, and there are those that
start behind it. -/
theorem IsOpenLiteral.iff_of_closed {i bodyStart : Nat} {q q' : Quote} {body : Span}
    (h : IsOpenLiteral bs comments start i q' bodyStart) (hi : i < stop)
    (hnext : openSince bs comments start (i + 1) = none) :
    (IsLiteral bs comments start q body ∧ bodyStart ≤ body.start ∧ body.stop < stop) ↔
      (comments.contains bodyStart = false ∧ (q, body) = (q', ⟨bodyStart, i⟩)) ∨
        (IsLiteral bs comments start q body ∧ i + 1 < body.start ∧ body.stop < stop) := by
  have hstarted := h.started
  constructor
  · rintro ⟨hbody, hge, hbefore⟩
    rcases h.eq_or_lt hnext hbody hge with ⟨rfl, rfl⟩ | hlt
    · exact Or.inl ⟨hbody.counted, rfl⟩
    · exact Or.inr ⟨hbody, hlt, hbefore⟩
  · rintro (⟨hcounted, heq⟩ | ⟨hbody, hlt, hbefore⟩)
    · cases heq
      have hbody : IsLiteral bs comments start q ⟨bodyStart, i⟩ :=
        ⟨h.after, h.outside, h.within, hnext, hcounted, hstarted⟩
      exact ⟨hbody, Nat.le_refl _, hi⟩
    · exact ⟨hbody, by omega, hbefore⟩

/-- A literal stays open until a byte closes it. -/
theorem IsOpenLiteral.succ {i bodyStart : Nat} {q : Quote}
    (h : IsOpenLiteral bs comments start i q bodyStart)
    (hnext : openSince bs comments start (i + 1) = some q) :
    IsOpenLiteral bs comments start (i + 1) q bodyStart := by
  have hstarted := h.started
  refine ⟨h.after, by omega, h.outside, ?_⟩
  intro k hge hle
  rcases Nat.eq_or_lt_of_le hle with rfl | hlt
  · exact hnext
  · exact h.within k hge (by omega)

/-- A literal that opens at a byte is open at the next one. -/
theorem isOpenLiteral_of_opens {i : Nat} {q : Quote} (hi : start ≤ i)
    (hopen : openSince bs comments start i = none)
    (hnext : openSince bs comments start (i + 1) = some q) :
    IsOpenLiteral bs comments start (i + 1) q (i + 1) := by
  refine ⟨by omega, Nat.le_refl _, hopen, ?_⟩
  intro k hge hle
  rw [show k = i + 1 by omega]
  exact hnext

/-- The literals found from an index on are those of the walk that start there or later, together
with the one that is open, if it is closed in time. -/
theorem mem_literalsFrom {q : Quote} {body : Span} (hstop : stop ≤ bs.length) {i : Nat}
    (hi : start ≤ i) (hle : i ≤ stop) :
    (openSince bs comments start i = none →
      ((q, body) ∈ Source.literalsFrom comments none (((Mark.ofBytes bs).take stop).drop i) ↔
        IsLiteral bs comments start q body ∧ i < body.start ∧ body.stop < stop)) ∧
    ∀ q' bodyStart, IsOpenLiteral bs comments start i q' bodyStart →
      ((q, body) ∈
          Source.literalsFrom comments (some (q', bodyStart))
            (((Mark.ofBytes bs).take stop).drop i) ↔
        IsLiteral bs comments start q body ∧ bodyStart ≤ body.start ∧ body.stop < stop) := by
  induction hk : stop - i generalizing i with
  | zero =>
    have hend : ((Mark.ofBytes bs).take stop).drop i = [] :=
      List.drop_eq_nil_of_le (by simp; omega)
    rw [hend]
    constructor
    · intro _
      simp only [Source.literalsFrom, List.not_mem_nil, false_iff]
      rintro ⟨hbody, hlt, hbefore⟩
      have := hbody.ordered
      omega
    · intro q' bodyStart hopen
      simp only [Source.literalsFrom, List.not_mem_nil, false_iff]
      rintro ⟨hbody, hge, hbefore⟩
      -- a literal that closes before the end would not be open there
      have hordered := hbody.ordered
      have := hopen.within (body.stop + 1) (by omega) (by omega)
      rw [hbody.closed] at this
      cases this
  | succ k ih =>
    rcases take_drop_ofBytes (show i < stop by omega) hstop with ⟨m, hm, hdrop⟩
    rcases ih (i := i + 1) (by omega) (by omega) (by omega) with ⟨ihnone, ihsome⟩
    rw [hdrop]
    constructor
    · intro hopen
      rw [Source.literalsFrom, Mark.offset_of_getElem? hm]
      by_cases hin : comments.contains i = true
      · -- a comment is passed over
        have hnext := openSince_succ_of_comment hm hi hopen hin
        rw [if_pos hin, IsLiteral.iff_of_outside hnext]
        exact ihnone hnext
      · rw [if_neg hin]
        have hnext := openSince_succ_of_code hm hi hopen (by simpa using hin)
        cases ho : m.opens? with
        | none =>
          rw [ho] at hnext
          rw [IsLiteral.iff_of_outside hnext]
          exact ihnone hnext
        | some q' =>
          -- a literal opens at the byte at hand
          rw [ho] at hnext
          exact ihsome q' (i + 1) (isOpenLiteral_of_opens hi hopen hnext)
    · intro q' bodyStart hopen
      have hnext := openSince_succ_of_quoted hm hi
        (hopen.within i hopen.started (Nat.le_refl _))
      rw [Source.literalsFrom, Mark.offset_of_getElem? hm]
      by_cases hcloses : m.closes q' = true
      · -- the open literal ends here
        rw [if_pos hcloses] at hnext ⊢
        rw [hopen.iff_of_closed (by omega) hnext, ← ihnone hnext]
        by_cases hcounted : comments.contains bodyStart = true
        · simp [hcounted]
        · simp [hcounted]
      · rw [if_neg hcloses] at hnext ⊢
        exact ihsome q' bodyStart (hopen.succ hnext)

/-- The literals among some marks follow each other, with their delimiters apart. -/
theorem pairwise_literalsFrom {open? : Option (Quote × Nat)} (hstop : stop ≤ bs.length) {i : Nat}
    (hle : i ≤ stop) :
    (Source.literalsFrom comments open? (((Mark.ofBytes bs).take stop).drop i)).Pairwise
      fun a b => a.2.stop + 1 < b.2.start := by
  induction hk : stop - i generalizing i open? with
  | zero =>
    have hend : ((Mark.ofBytes bs).take stop).drop i = [] :=
      List.drop_eq_nil_of_le (by simp; omega)
    rw [hend]
    cases open? <;> exact List.Pairwise.nil
  | succ k ih =>
    rcases take_drop_ofBytes (show i < stop by omega) hstop with ⟨m, hm, hdrop⟩
    rw [hdrop]
    cases open? with
    | none =>
      rw [Source.literalsFrom]
      split
      · exact ih (by omega) (by omega)
      · exact ih (by omega) (by omega)
    | some opened =>
      rcases opened with ⟨q, bodyStart⟩
      have hothers := @ih none (i + 1) (by omega) (by omega)
      rw [Source.literalsFrom, Mark.offset_of_getElem? hm]
      split
      · simp only
        split
        · exact hothers
        · -- the literals behind the one that ends here are those of a walk that starts behind it
          refine List.pairwise_cons.2 ⟨?_, hothers⟩
          intro other hother
          have hopen : openSince bs comments (i + 1) (i + 1) = none :=
            openSince_of_le (Nat.le_refl _)
          have hmem := @mem_literalsFrom bs comments (i + 1) stop other.1 other.2 hstop (i + 1)
            (Nat.le_refl _) (by omega)
          exact ((hmem.1 hopen).1 hother).2.1
      · exact ih (by omega) (by omega)

end Literals

end ClassHighlight
