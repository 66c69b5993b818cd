import ClassHighlight.Text.Line

/-!
# How a text is divided

Every line of a text but the last ends in a break, and the last one holds none. The columns of a
line stop before a final line feed, and before the carriage return in front of it; behind any other
break there is one column more than there are characters before the break.
-/

namespace ClassHighlight

namespace Text

/-! ## Lines and their breaks -/

/-- Lines as a text is divided into them: all but the last end in a break, and the last has none. -/
inductive IsDivided : List Text → Prop
  /-- The last line has no break. -/
  | last {line : Text} (hplain : ∀ c ∈ line, isLineBreak c = false) : IsDivided [line]
  /-- A line in front of others ends in a break. -/
  | cons {line next : Text} {rest : List Text} {c : Char} (hlast : line.getLast? = some c)
      (hbreak : isLineBreak c = true) (hrest : IsDivided (next :: rest)) :
      IsDivided (line :: next :: rest)

/-- A break starts a line of its own. -/
theorem IsDivided.cons_break {ls : List Text} (h : IsDivided ls) {line : Text} {c : Char}
    (hlast : line.getLast? = some c) (hbreak : isLineBreak c = true) : IsDivided (line :: ls) := by
  cases h with
  | last hplain => exact .cons hlast hbreak (.last hplain)
  | cons hlast' hbreak' hrest => exact .cons hlast hbreak (.cons hlast' hbreak' hrest)

/-- A character that is no break goes to the first line. -/
theorem IsDivided.consToLine {ls : List Text} (h : IsDivided ls) {c : Char}
    (hplain : isLineBreak c = false) : IsDivided (consToLine c ls) := by
  cases h with
  | last hrest =>
    apply IsDivided.last
    intro d hd
    rcases List.mem_cons.1 hd with rfl | hd
    · exact hplain
    · exact hrest d hd
  | cons hlast hbreak hrest =>
    refine .cons ?_ hbreak hrest
    rw [List.getLast?_cons, hlast]
    rfl

theorem isDivided_lines (t : Text) : IsDivided (lines t) := by
  fun_induction lines t with
  | case1 =>
    apply IsDivided.last
    intro c hc
    cases hc
  | case2 rest ih => exact ih.cons_break rfl (by decide)
  | case3 c rest _ hbreak ih => exact ih.cons_break rfl hbreak
  | case4 c rest _ hplain ih => exact ih.consToLine (by simpa using hplain)

/-! ## Columns -/

/-- A line whose last character is no line feed has a column behind every character. -/
theorem columns_eq_length {line : Text} (h : line.getLast? ≠ some '\n') :
    columns line = line.length := by
  rw [← List.head?_reverse] at h
  unfold columns
  split
  · rename_i heq
    rw [heq] at h
    exact absurd rfl h
  · rename_i heq
    rw [heq] at h
    exact absurd rfl h
  · exact List.length_reverse

/-- A final line feed has no column behind it. -/
theorem columns_lt_length {line : Text} (h : line.getLast? = some '\n') :
    columns line < line.length := by
  rw [← List.head?_reverse] at h
  rw [← List.length_reverse]
  unfold columns
  split
  · rename_i before heq
    rw [heq, List.length_cons, List.length_cons]
    omega
  · rename_i before _ heq
    rw [heq, List.length_cons]
    omega
  · rename_i hnot
    cases hline : line.reverse with
    | nil =>
      rw [hline] at h
      cases h
    | cons c before =>
      rw [hline] at h
      cases h
      exact absurd hline (hnot before)

theorem columns_le_length (line : Text) : columns line ≤ line.length := by
  by_cases h : line.getLast? = some '\n'
  · exact Nat.le_of_lt (columns_lt_length h)
  · exact Nat.le_of_eq (columns_eq_length h)

end Text

end ClassHighlight
