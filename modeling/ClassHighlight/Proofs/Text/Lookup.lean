import ClassHighlight.Buffer.Lookup
import ClassHighlight.Proofs.Text.Line
import ClassHighlight.Proofs.Text.Place

/-!
# Looking up characters and lines

A byte belongs to one character, a character to one line. Both look-ups go up with what is looked
up, so the position of a character goes up with its index, line before column. A position found in
this way leads back to its character, unless that is the line feed of a carriage return and a line
feed: it has no column, since the whole break is taken off its line.
-/

namespace ClassHighlight

namespace Text

/-! ## Bytes of characters -/

/-- Two offsets are the same, or belong to the same character. -/
def InSameCharacter (t : Text) (offset offset' : Nat) : Prop :=
  offset = offset' ∨ ∃ front c rest k k', t = front ++ c :: rest ∧ k < c.utf8Size ∧
    k' < c.utf8Size ∧ offset = byteLength front + k ∧ offset' = byteLength front + k'

/-- Each byte of a character belongs to it. -/
theorem indexOfByte_within (front : Text) {c : Char} (rest : Text) {k : Nat}
    (hk : k < c.utf8Size) :
    indexOfByte (byteLength front + k) (front ++ c :: rest) = front.length := by
  induction front with
  | nil =>
    rw [List.nil_append, byteLength_nil, Nat.zero_add, indexOfByte, if_pos hk]
    rfl
  | cons d front ih =>
    have hbehind : byteLength (d :: front) + k - d.utf8Size = byteLength front + k := by
      rw [byteLength_cons]
      omega
    rw [List.cons_append, indexOfByte, if_neg (by rw [byteLength_cons]; omega), hbehind, ih,
      List.length_cons]

theorem indexOfByte_end (t : Text) : indexOfByte (byteLength t) t = t.length := by
  have h := indexOfByte_byteLength_take (Nat.le_refl t.length)
  rw [List.take_length] at h
  exact h

/-- Further bytes belong to the same character or to later ones. -/
theorem indexOfByte_mono (t : Text) {offset offset' : Nat} (h : offset ≤ offset') :
    indexOfByte offset t ≤ indexOfByte offset' t := by
  induction t generalizing offset offset' with
  | nil => exact Nat.le_refl _
  | cons c rest ih =>
    rw [indexOfByte, indexOfByte]
    by_cases hfirst : offset < c.utf8Size
    · rw [if_pos hfirst]
      exact Nat.zero_le _
    · rw [if_neg hfirst, if_neg (by omega)]
      exact Nat.succ_le_succ (ih (Nat.sub_le_sub_right h _))

/-- Offsets have the same index exactly if they belong to the same character or are the same. -/
theorem indexOfByte_eq_iff {t : Text} {offset offset' : Nat} (h : offset ≤ byteLength t)
    (h' : offset' ≤ byteLength t) :
    indexOfByte offset t = indexOfByte offset' t ↔ t.InSameCharacter offset offset' := by
  constructor
  · intro heq
    cases Nat.lt_or_eq_of_le h with
    | inl hlt =>
      obtain ⟨front, c, rest, k, rfl, rfl, hk⟩ := exists_char_at hlt
      rw [indexOfByte_within front rest hk] at heq
      cases Nat.lt_or_eq_of_le h' with
      | inl hlt' =>
        obtain ⟨front', c', rest', k', hsplit, rfl, hk'⟩ := exists_char_at hlt'
        -- both characters have the same number of characters before them
        rw [hsplit, indexOfByte_within front' rest' hk'] at heq
        obtain ⟨rfl, hbehind⟩ := List.append_inj hsplit heq
        obtain ⟨rfl, rfl⟩ := List.cons.inj hbehind
        exact Or.inr ⟨front, c, rest, k, k', rfl, hk, hk', rfl, rfl⟩
      | inr hend =>
        rw [hend, indexOfByte_end, List.length_append, List.length_cons] at heq
        omega
    | inr hend =>
      cases Nat.lt_or_eq_of_le h' with
      | inl hlt' =>
        obtain ⟨front', c', rest', k', rfl, rfl, hk'⟩ := exists_char_at hlt'
        rw [hend, indexOfByte_end, indexOfByte_within front' rest' hk', List.length_append,
          List.length_cons] at heq
        omega
      | inr hend' => exact Or.inl (hend.trans hend'.symm)
  · intro hsame
    cases hsame with
    | inl heq => rw [heq]
    | inr hwithin =>
      obtain ⟨front, c, rest, k, k', rfl, hk, hk', rfl, rfl⟩ := hwithin
      rw [indexOfByte_within front rest hk, indexOfByte_within front rest hk']

/-! ## Lengths without breaks -/

theorem hasBefore_concat (front behind : Text) (c d : Char) :
    hasBefore (front ++ c :: behind) (front.length + 1) d = (c == d) := by
  rw [hasBefore, Nat.add_sub_cancel, List.getElem?_append_right (Nat.le_refl _), Nat.sub_self]
  simp

/-- Taking characters off the end of a line leaves its columns. -/
theorem lengthWithoutBreak_eq_columns (line : Text) : lengthWithoutBreak line = columns line := by
  cases hreverse : line.reverse with
  | nil =>
    rw [List.reverse_eq_nil_iff.1 hreverse]
    rfl
  | cons c before =>
    have hline : line = before.reverse ++ [c] := by
      rw [← List.reverse_reverse line, hreverse, List.reverse_cons]
    have hlength : line.length = before.reverse.length + 1 := by
      rw [hline, List.length_append, List.length_singleton]
    have hlast : line.hasBefore line.length '\n' = (c == '\n') := by
      rw [hlength, hline, hasBefore_concat]
    unfold lengthWithoutBreak columns
    rw [hlast, hreverse]
    by_cases hfeed : c = '\n'
    · subst hfeed
      cases before with
      | nil =>
        rw [hline]
        rfl
      | cons d before =>
        have hsecond : line.hasBefore (line.length - 1) '\r' = (d == '\r') := by
          rw [hlength, hline, List.reverse_cons, List.append_assoc, List.length_append,
            List.length_singleton, Nat.add_sub_cancel]
          exact hasBefore_concat _ _ _ _
        rw [hsecond, hlength, List.length_reverse, List.length_cons]
        by_cases hreturn : d = '\r'
        · subst hreturn
          simp
        · simp [hreturn]
    · have hplain : (c == '\n') = false := beq_eq_false_iff_ne.2 hfeed
      rw [hplain, hlength, List.length_reverse]
      simp [hfeed]

/-! ## Lines of characters -/

theorem lineAt_cons_cons (line next : Text) (rest : List Text) (index : Nat) :
    lineAt (line :: next :: rest) index =
      if index < line.length then 0 else lineAt (next :: rest) (index - line.length) + 1 := rfl

theorem lineStart_cons_succ (line : Text) (rest : List Text) (n : Nat) :
    lineStart (line :: rest) (n + 1) = line.length + lineStart rest n := by
  rw [lineStart, List.take_succ_cons, List.flatten_cons, List.length_append]
  rfl

/-- The line of a character starts at the character or before it. -/
theorem lineStart_lineAt_le (ls : List Text) (index : Nat) :
    lineStart ls (lineAt ls index) ≤ index := by
  fun_induction lineAt ls index with
  | case1 line next rest index hlt => exact Nat.zero_le _
  | case2 line next rest index hge ih =>
    rw [lineStart_cons_succ]
    omega
  | case3 => exact Nat.zero_le _

/-- Later characters are on the same line or on later ones. -/
theorem lineAt_mono (ls : List Text) {index index' : Nat} (h : index ≤ index') :
    lineAt ls index ≤ lineAt ls index' := by
  fun_induction lineAt ls index generalizing index' with
  | case1 line next rest index hlt => exact Nat.zero_le _
  | case2 line next rest index hge ih =>
    rw [lineAt_cons_cons, if_neg (by omega)]
    exact Nat.succ_le_succ (ih (Nat.sub_le_sub_right h _))
  | case3 => exact Nat.zero_le _

end Text

end ClassHighlight
