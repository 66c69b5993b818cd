import ClassHighlight.Proofs.Source.Mark
import ClassHighlight.Source.Region

/-!
# Where regions end

The searches that measure a region are described by what they find: a comment ends with the first
closer after its opener, a quoted region with the first mark that closes it, and both with the
document if there is none.
-/

namespace ClassHighlight

/-! ## Occurrences of patterns -/

/-- A pattern occurs at `k`, and nowhere between `start` and `k`. -/
def FirstAt (pattern bs : List UInt8) (start k : Nat) : Prop :=
  start ≤ k ∧ pattern <+: bs.drop k ∧ ∀ j, start ≤ j → j < k → ¬ pattern <+: bs.drop j

/-- A pattern occurs nowhere from `start` on. -/
def AbsentFrom (pattern bs : List UInt8) (start : Nat) : Prop :=
  ∀ j, start ≤ j → ¬ pattern <+: bs.drop j

/-- An occurrence behind a byte at which there is none is one further on. -/
theorem FirstAt.cons {pattern bs : List UInt8} {b : UInt8} {k : Nat}
    (hnot : ¬ pattern <+: b :: bs) (h : FirstAt pattern bs 0 k) :
    FirstAt pattern (b :: bs) 0 (k + 1) := by
  rcases h with ⟨-, hk, hfirst⟩
  refine ⟨Nat.zero_le _, hk, ?_⟩
  intro j _ hj
  cases j with
  | zero => exact hnot
  | succ j => exact hfirst j (Nat.zero_le _) (by omega)

theorem AbsentFrom.cons {pattern bs : List UInt8} {b : UInt8}
    (hnot : ¬ pattern <+: b :: bs) (h : AbsentFrom pattern bs 0) :
    AbsentFrom pattern (b :: bs) 0 := by
  intro j _
  cases j with
  | zero => exact hnot
  | succ j => exact h j (Nat.zero_le _)

namespace Mark

theorem startsWith_iff {pattern : List UInt8} {ms : List Mark} :
    startsWith pattern ms = true ↔ pattern <+: ms.map Mark.byte := by
  simp only [startsWith, bytes, beq_iff_eq, List.prefix_iff_eq_take, List.map_take]
  exact eq_comm

theorem length_le_of_startsWith {pattern : List UInt8} {ms : List Mark}
    (h : startsWith pattern ms = true) : pattern.length ≤ ms.length := by
  simpa using (startsWith_iff.1 h).length_le

@[simp] theorem map_byte_ofBytes (bs : List UInt8) : (ofBytes bs).map Mark.byte = bs := by
  apply List.ext_getElem?
  intro i
  rw [List.getElem?_map, getElem?_ofBytes]
  cases bs[i]? <;> rfl

end Mark

namespace CommentForm

/-! ## Openers and closers -/

/-- What closes a comment. -/
def closer : CommentForm → List UInt8
  | .line => Text.bytes "\n".toList
  | .block => Text.bytes ['*', '/']
  | .markup => Text.bytes "-->".toList

/-- How many bytes of the closer belong to the comment; a line feed does not. -/
def closerKept : CommentForm → Nat
  | .line => 0
  | .block => 2
  | .markup => 3

/-- A comment whose opener ends at `start` ends at `stop`: by its first closer, or with the
document if there is none. -/
def EndsAt (form : CommentForm) (bs : List UInt8) (start stop : Nat) : Prop :=
  (∃ k, FirstAt form.closer bs start k ∧ stop = k + form.closerKept) ∨
    (AbsentFrom form.closer bs start ∧ stop = bs.length)

theorem EndsAt.of_drop {form : CommentForm} {bs : List UInt8} {start n : Nat}
    (hle : start ≤ bs.length) (h : form.EndsAt (bs.drop start) 0 n) :
    form.EndsAt bs start (start + n) := by
  have hshift : ∀ j, start ≤ j → bs.drop j = (bs.drop start).drop (j - start) := by
    intro j hj
    rw [List.drop_drop]
    congr 1
    omega
  rcases h with ⟨k, ⟨-, hk, hfirst⟩, rfl⟩ | ⟨habsent, rfl⟩
  · -- the first closer moves along with the text
    left
    refine ⟨start + k, ⟨by omega, ?_, ?_⟩, by omega⟩
    · rw [hshift _ (by omega)]
      simpa using hk
    · intro j hj hlt
      rw [hshift j hj]
      exact hfirst (j - start) (by omega) (by omega)
  · right
    refine ⟨?_, by simp; omega⟩
    intro j hj
    rw [hshift j hj]
    exact habsent (j - start) (by omega)

/-- A comment never ends past its document. -/
theorem EndsAt.le_length {form : CommentForm} {bs : List UInt8} {start stop : Nat}
    (h : form.EndsAt bs start stop) : stop ≤ bs.length := by
  rcases h with ⟨k, ⟨-, hk, -⟩, rfl⟩ | ⟨-, rfl⟩
  · -- the closer fits behind the place where it was found
    have hlen := hk.length_le
    rw [List.length_drop] at hlen
    cases form
    · have : 1 ≤ bs.length - k := hlen
      simp only [closerKept]
      omega
    · have : 2 ≤ bs.length - k := hlen
      simp only [closerKept]
      omega
    · have : 3 ≤ bs.length - k := hlen
      simp only [closerKept]
      omega
  · exact Nat.le_refl _

/-- An opener is not empty, lies within the marks, and starts with a slash, a less-than sign or a
hash sign. -/
theorem opener?_spec {m : Mark} {rest : List Mark} {form : CommentForm} {n : Nat}
    (h : opener? (m :: rest) = some (form, n)) :
    1 ≤ n ∧ n ≤ rest.length + 1 ∧
      (m.byte = '/'.toUInt8 ∨ m.byte = '<'.toUInt8 ∨ m.byte = '#'.toUInt8) := by
  have hhead : ∀ {b : UInt8} {pattern : List UInt8},
      Mark.startsWith (b :: pattern) (m :: rest) = true → m.byte = b := by
    intro b pattern hp
    have := Mark.startsWith_iff.1 hp
    rw [List.map_cons, List.cons_prefix_cons] at this
    exact this.1.symm
  -- the four openers are tried one after the other
  rw [opener?] at h
  by_cases hline : Mark.startsWith (Text.bytes "//".toList) (m :: rest) = true
  · have hlen : 2 ≤ rest.length + 1 := Mark.length_le_of_startsWith hline
    rw [if_pos hline] at h
    split at h
    · cases h
    · cases h
      exact ⟨by omega, hlen, Or.inl (hhead hline)⟩
  rw [if_neg hline] at h
  by_cases hblock : Mark.startsWith (Text.bytes ['/', '*']) (m :: rest) = true
  · have hlen : 2 ≤ rest.length + 1 := Mark.length_le_of_startsWith hblock
    rw [if_pos hblock] at h
    cases h
    exact ⟨by omega, hlen, Or.inl (hhead hblock)⟩
  rw [if_neg hblock] at h
  by_cases hmarkup : Mark.startsWith (Text.bytes "<!--".toList) (m :: rest) = true
  · have hlen : 4 ≤ rest.length + 1 := Mark.length_le_of_startsWith hmarkup
    rw [if_pos hmarkup] at h
    cases h
    exact ⟨by omega, hlen, Or.inr (Or.inl (hhead hmarkup))⟩
  rw [if_neg hmarkup] at h
  split at h
  · rename_i hhash
    cases h
    rw [Bool.and_eq_true, beq_iff_eq] at hhash
    exact ⟨by omega, by omega, Or.inr (Or.inr hhash.1)⟩
  · cases h

theorem quote_ne_opener (q : Quote) :
    ¬ (q.byte = '/'.toUInt8 ∨ q.byte = '<'.toUInt8 ∨ q.byte = '#'.toUInt8) := by
  cases q <;> decide

/-- No comment opens at a quote. -/
theorem opener?_of_quote {m : Mark} {rest : List Mark} {q : Quote} (h : m.byte = q.byte) :
    opener? (m :: rest) = none := by
  cases ho : opener? (m :: rest) with
  | none => rfl
  | some found =>
    rcases opener?_spec ho with ⟨-, -, hb⟩
    rw [h] at hb
    exact absurd hb (quote_ne_opener q)

end CommentForm

namespace Region

/-! ## The extent of a region -/

/-- The search for a closer stops at its first occurrence, or passes over all marks. -/
theorem lengthThrough_spec {closer : List UInt8} (hne : closer ≠ []) (ms : List Mark) :
    (∃ k, FirstAt closer (ms.map Mark.byte) 0 k ∧
      lengthThrough closer ms = k + closer.length) ∨
    (AbsentFrom closer (ms.map Mark.byte) 0 ∧ lengthThrough closer ms = ms.length) := by
  induction ms with
  | nil =>
    right
    refine ⟨?_, rfl⟩
    -- an empty closer would occur even here
    intro j _ h
    rw [List.map_nil, List.drop_nil, List.prefix_nil] at h
    exact hne h
  | cons m rest ih =>
    by_cases hhere : Mark.startsWith closer (m :: rest) = true
    · left
      refine ⟨0, ⟨Nat.le_refl _, Mark.startsWith_iff.1 hhere, by omega⟩, ?_⟩
      rw [lengthThrough, if_pos hhere, Nat.zero_add]
    · -- both an occurrence and its absence are carried over one byte
      rw [lengthThrough, if_neg hhere, List.map_cons, List.length_cons]
      have hnot : ¬ closer <+: m.byte :: rest.map Mark.byte := by
        intro h
        exact hhere (Mark.startsWith_iff.2 h)
      rcases ih with ⟨k, hk, hlen⟩ | ⟨habsent, hlen⟩
      · left
        exact ⟨k + 1, hk.cons hnot, by omega⟩
      · right
        exact ⟨habsent.cons hnot, by omega⟩

/-- A line ends before its first line feed, or with all marks. -/
theorem takeWhile_line_spec (ms : List Mark) :
    CommentForm.line.EndsAt (ms.map Mark.byte) 0
      (ms.takeWhile fun m => m.byte != '\n'.toUInt8).length := by
  induction ms with
  | nil =>
    right
    refine ⟨?_, rfl⟩
    intro j _ h
    rw [List.map_nil, List.drop_nil] at h
    exact absurd h.length_le (by decide)
  | cons m rest ih =>
    -- the closer of a line is one byte, so the first one decides
    have hone : ∀ bs : List UInt8, CommentForm.line.closer <+: m.byte :: bs ↔
        m.byte = '\n'.toUInt8 := by
      intro bs
      have hcloser : CommentForm.line.closer = ['\n'.toUInt8] := by decide
      rw [hcloser, List.cons_prefix_cons]
      simp [eq_comm]
    by_cases hfeed : m.byte = '\n'.toUInt8
    · left
      refine ⟨0, ⟨Nat.le_refl _, (hone _).2 hfeed, by omega⟩, ?_⟩
      simp [hfeed, CommentForm.closerKept]
    · rw [List.takeWhile_cons, if_pos (by simpa using hfeed), List.length_cons, List.map_cons]
      have hnot : ¬ CommentForm.line.closer <+: m.byte :: rest.map Mark.byte := by
        intro h
        exact hfeed ((hone _).1 h)
      rcases ih with ⟨k, hk, hlen⟩ | ⟨habsent, hlen⟩
      · left
        exact ⟨k + 1, hk.cons hnot, by omega⟩
      · right
        exact ⟨habsent.cons hnot, by rw [hlen, List.length_cons]⟩

/-- The body of a comment ends as its form says. -/
theorem bodyLength_spec (form : CommentForm) (ms : List Mark) :
    form.EndsAt (ms.map Mark.byte) 0 (bodyLength form ms) := by
  cases form with
  | line => exact takeWhile_line_spec ms
  | block =>
    rw [CommentForm.EndsAt, List.length_map]
    exact lengthThrough_spec (by decide) ms
  | markup =>
    rw [CommentForm.EndsAt, List.length_map]
    exact lengthThrough_spec (by decide) ms

/-- A quoted region ends through the first mark that closes it. -/
theorem quotedLength?_spec {q : Quote} {ms : List Mark} {n : Nat}
    (h : quotedLength? q ms = some n) :
    1 ≤ n ∧ n ≤ ms.length ∧ (∃ m, ms[n - 1]? = some m ∧ m.closes q = true) ∧
      ∀ (j : Nat) (m : Mark), j < n - 1 → ms[j]? = some m → m.closes q = false := by
  induction ms generalizing n with
  | nil => cases h
  | cons m rest ih =>
    rw [quotedLength?] at h
    by_cases hclose : m.closes q = true
    · rw [if_pos hclose] at h
      cases h
      exact ⟨Nat.le_refl _, by simp, ⟨m, rfl, hclose⟩, by omega⟩
    · rw [if_neg hclose] at h
      rcases Option.map_eq_some_iff.1 h with ⟨k, hk, rfl⟩
      -- the closing mark is found among the rest, one place further on
      rcases ih hk with ⟨hpos, hle, ⟨m', hm', hcloses⟩, hbefore⟩
      refine ⟨by omega, by simp; omega, ⟨m', ?_, hcloses⟩, ?_⟩
      · rw [show k + 1 - 1 = (k - 1) + 1 by omega, List.getElem?_cons_succ]
        exact hm'
      · intro j m'' hj hget
        cases j with
        | zero =>
          cases hget
          simpa using hclose
        | succ j => exact hbefore j m'' (by omega) hget

theorem quotedLength?_eq_none {q : Quote} {ms : List Mark} (h : quotedLength? q ms = none) :
    ∀ (j : Nat) (m : Mark), ms[j]? = some m → m.closes q = false := by
  induction ms with
  | nil =>
    intro j m hget
    simp at hget
  | cons m rest ih =>
    rw [quotedLength?] at h
    by_cases hclose : m.closes q = true
    · rw [if_pos hclose] at h
      cases h
    · rw [if_neg hclose, Option.map_eq_none_iff] at h
      intro j m' hget
      cases j with
      | zero =>
        cases hget
        simpa using hclose
      | succ j => exact ih h j m' hget

end Region

end ClassHighlight
