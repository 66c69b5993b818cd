import ClassHighlight.Buffer.Basic
import ClassHighlight.Proofs.Text.Line
import ClassHighlight.Proofs.Text.Place

/-!
# Positions and the places they stand for

A position is turned into the index of a character and a byte offset, and these are turned back.
The position that comes back is the one that was given, unless that one stands behind a break other
than a line feed: such a break still counts among the columns of its line, and the place behind it
is also the start of the next line.
-/

namespace ClassHighlight

namespace Position

/-- Whether a position among lines stands behind a break, other than a line feed, that ends its
line. -/
def isBehindBreak (p : Position) (ls : List Text) : Bool :=
  ls[p.line]?.any fun line =>
    p.column == line.length && line.getLast?.any fun c => Text.isLineBreak c && c != '\n'

/-- The start of the next line for a position behind such a break, and any other position itself. -/
def settled (p : Position) (ls : List Text) : Position :=
  if p.isBehindBreak ls then ⟨p.line + 1, 0⟩ else p

/-! ## Indices -/

theorem locate_cons_cons (first : Nat) (line next : Text) (rest : List Text) (index : Nat) :
    locate first (line :: next :: rest) index =
      if index < line.length then ⟨first, index⟩
      else locate (first + 1) (next :: rest) (index - line.length) := rfl

/-- The start of the first line has its position. -/
theorem locate_zero {ls : List Text} (h : Text.IsDivided ls) (first : Nat) :
    locate first ls 0 = ⟨first, 0⟩ := by
  cases h with
  | last => rfl
  | @cons line next rest c hlast hbreak hrest =>
    cases line with
    | nil => cases hlast
    | cons d line => rfl

/-- No column of the last line is behind a break. -/
theorem settled_last {line : Text} (hplain : ∀ c ∈ line, Text.isLineBreak c = false)
    (column : Nat) : settled ⟨0, column⟩ [line] = ⟨0, column⟩ := by
  have hnot : isBehindBreak ⟨0, column⟩ [line] = false := by
    cases hlast : line.getLast? with
    | none => simp [isBehindBreak, hlast]
    | some c => simp [isBehindBreak, hlast, hplain c (List.mem_of_getLast? hlast)]
  rw [settled, hnot]
  rfl

/-- A column of a line in front of others is behind its break if it is behind all characters. -/
theorem settled_cons_zero {line : Text} {rest : List Text} {c : Char} {column : Nat}
    (hlast : line.getLast? = some c) (hbreak : Text.isLineBreak c = true)
    (hle : column ≤ Text.columns line) :
    settled ⟨0, column⟩ (line :: rest) =
      if column = line.length then ⟨1, 0⟩ else ⟨0, column⟩ := by
  by_cases hcolumn : column = line.length
  · -- a line feed would have no column behind it
    have hne : c ≠ '\n' := by
      rintro rfl
      have := Text.columns_lt_length hlast
      omega
    simp [settled, isBehindBreak, hlast, hbreak, hne, hcolumn]
  · simp [settled, isBehindBreak, hcolumn]

theorem settled_cons_succ (line : Text) (rest : List Text) (n column : Nat) :
    settled ⟨n + 1, column⟩ (line :: rest) =
      ⟨(settled ⟨n, column⟩ rest).line + 1, (settled ⟨n, column⟩ rest).column⟩ := by
  have hsame : isBehindBreak ⟨n + 1, column⟩ (line :: rest) = isBehindBreak ⟨n, column⟩ rest := rfl
  unfold settled
  rw [hsame]
  split <;> rfl

/-- The index of a position belongs to what the position settles to. -/
theorem locate_of_indexIn? {ls : List Text} (h : Text.IsDivided ls) {line column index : Nat}
    (hindex : indexIn? ls line column = some index) (first : Nat) :
    locate first ls index =
      ⟨first + (settled ⟨line, column⟩ ls).line, (settled ⟨line, column⟩ ls).column⟩ := by
  induction h generalizing line index first with
  | @last l hplain =>
    cases line with
    | zero =>
      rw [indexIn?] at hindex
      split at hindex
      · cases hindex
        rw [settled_last hplain]
        rfl
      · cases hindex
    | succ line => cases hindex
  | @cons l next rest c hlast hbreak hrest ih =>
    cases line with
    | zero =>
      rw [indexIn?] at hindex
      split at hindex
      · rename_i hle
        cases hindex
        rw [settled_cons_zero hlast hbreak hle, locate_cons_cons]
        have := Text.columns_le_length l
        by_cases hcolumn : column = l.length
        · -- the place behind the line is the start of the next one
          rw [if_pos hcolumn, if_neg (by omega), hcolumn, Nat.sub_self, locate_zero hrest]
        · rw [if_neg hcolumn, if_pos (by omega)]
          rfl
      · cases hindex
    | succ line =>
      rw [indexIn?] at hindex
      obtain ⟨behind, hbehind, rfl⟩ := Option.map_eq_some_iff.1 hindex
      rw [settled_cons_succ, locate_cons_cons, if_neg (by omega), Nat.add_sub_cancel_left,
        ih hbehind (first + 1)]
      simp only [mk.injEq, and_true]
      omega

theorem indexIn?_le {ls : List Text} {line column index : Nat}
    (h : indexIn? ls line column = some index) : index ≤ ls.flatten.length := by
  induction ls generalizing line index with
  | nil => cases h
  | cons l rest ih =>
    rw [List.flatten_cons, List.length_append]
    cases line with
    | zero =>
      rw [indexIn?] at h
      split at h
      · rename_i hle
        cases h
        have := Text.columns_le_length l
        omega
      · cases h
    | succ line =>
      rw [indexIn?] at h
      obtain ⟨behind, hbehind, rfl⟩ := Option.map_eq_some_iff.1 h
      have := ih hbehind
      omega

/-- The index of a position is within the text. -/
theorem index?_le {t : Text} {p : Position} {index : Nat} (h : index? t p = some index) :
    index ≤ t.length := by
  have hle := indexIn?_le h
  rw [Text.flatten_lines] at hle
  exact hle

/-- The character at a position has the position that it settles to. -/
theorem ofIndex_of_index? {t : Text} {p : Position} {index : Nat} (h : index? t p = some index) :
    ofIndex t index = p.settled t.lines := by
  rw [ofIndex, locate_of_indexIn? (Text.isDivided_lines t) h, Nat.zero_add]

/-- Positions that settle to the same one are the same if both stand behind a break or neither. -/
theorem eq_iff_of_settled_eq {p q : Position} {ls : List Text} (h : q.settled ls = p.settled ls) :
    q = p ↔ q.isBehindBreak ls = p.isBehindBreak ls := by
  constructor
  · intro heq
    rw [heq]
  · intro hsame
    cases hp : p.isBehindBreak ls with
    | false =>
      rw [settled, settled, hsame, hp] at h
      exact h
    | true =>
      rw [hp] at hsame
      simp only [settled, hsame, hp, if_true, mk.injEq, Nat.add_right_cancel_iff, and_true] at h
      -- both stand behind the last character of the same line
      unfold isBehindBreak at hsame hp
      rw [h] at hsame
      cases hline : ls[p.line]? with
      | none =>
        rw [hline] at hp
        cases hp
      | some line =>
        simp only [hline, Option.any_some, Bool.and_eq_true, beq_iff_eq] at hsame hp
        cases p
        cases q
        simp_all

end Position

namespace Buffer

/-! ## Offsets -/

theorem offsetOfPosition_eq_ok {b : Buffer} {p : Position} {offset : Nat}
    (h : b.offsetOfPosition p = .ok offset) :
    ∃ index, Position.index? b.text p = some index ∧ offset = b.offsetOfIndex index := by
  unfold offsetOfPosition indexOfPosition at h
  cases hindex : Position.index? b.text p with
  | none =>
    rw [hindex] at h
    cases h
  | some index =>
    rw [hindex] at h
    cases h
    exact ⟨index, rfl, rfl⟩

/-- The offset of a character belongs to the position of that character. -/
theorem positionOfOffset_offsetOfIndex {b : Buffer} {index : Nat} (h : index ≤ b.text.length) :
    b.positionOfOffset (b.offsetOfIndex index) = .ok (Position.ofIndex b.text index) := by
  have hle : b.offsetOfIndex index ≤ b.byteCount := Text.byteLength_take_le b.text index
  have hindex : Text.indexOfByte (b.offsetOfIndex index) b.text = index :=
    Text.indexOfByte_byteLength_take h
  rw [positionOfOffset, indexOfOffset, if_pos hle, hindex]
  rfl

/-- A cursor that is moved to a position has the position that this one settles to. -/
theorem cursorPosition_of_index? {b : Buffer} {p : Position} {index : Nat}
    (h : Position.index? b.text p = some index) :
    (b.setCursorPosition p).map cursorPosition = .ok (p.settled b.text.lines) := by
  have hmoved : b.setCursorPosition p = .ok (b.placeCursor index) := by
    rw [setCursorPosition, indexOfPosition, h]
    rfl
  rw [hmoved, ← Position.ofIndex_of_index? h]
  show Except.ok (Position.ofIndex b.text (min index b.text.length)) = _
  rw [Nat.min_eq_left (Position.index?_le h)]

/-- The offset of a position belongs to the position itself, unless that stands behind a break other
than a line feed: then to the start of the next line. So does a cursor that is moved there. Two
positions with one offset are the same if both stand behind such a break or neither does. -/
theorem position_comes_back (b : Buffer) (p : Position) (offset : Nat)
    (h : b.offsetOfPosition p = .ok offset) :
    b.positionOfOffset offset = .ok (p.settled b.text.lines) ∧
      (b.setCursorPosition p).map cursorPosition = .ok (p.settled b.text.lines) ∧
      (p.settled b.text.lines = p ↔ p.isBehindBreak b.text.lines = false) ∧
      ∀ q, b.offsetOfPosition q = .ok offset →
        (q = p ↔ q.isBehindBreak b.text.lines = p.isBehindBreak b.text.lines) := by
  have hsettles : ∀ q, b.offsetOfPosition q = .ok offset →
      b.positionOfOffset offset = .ok (q.settled b.text.lines) := by
    intro q hq
    obtain ⟨index, hindex, rfl⟩ := offsetOfPosition_eq_ok hq
    rw [positionOfOffset_offsetOfIndex (Position.index?_le hindex),
      Position.ofIndex_of_index? hindex]
  obtain ⟨index, hindex, -⟩ := offsetOfPosition_eq_ok h
  refine ⟨hsettles p h, cursorPosition_of_index? hindex, ?_, ?_⟩
  · cases hp : p.isBehindBreak b.text.lines with
    | false => simp [Position.settled, hp]
    | true =>
      -- the start of the next line is another position
      have hne : (⟨p.line + 1, 0⟩ : Position) ≠ p := by
        intro heq
        have hline := congrArg Position.line heq
        exact absurd hline (Nat.succ_ne_self _)
      simp [Position.settled, hp, hne]
  · intro q hq
    apply Position.eq_iff_of_settled_eq
    have hsame := (hsettles q hq).symm.trans (hsettles p h)
    exact Except.ok.inj hsame

/-- The end of a line before a carriage return and a line feed comes back, also in a text with
other breaks. -/
theorem position_comes_back_before_crlf :
    (ofText "é\r\na\x0Bb".toList).offsetOfPosition ⟨0, 1⟩ = .ok 2 ∧
      (ofText "é\r\na\x0Bb".toList).positionOfOffset 2 = .ok ⟨0, 1⟩ := by
  have haccepted : (ofText "é\r\na\x0Bb".toList).offsetOfPosition ⟨0, 1⟩ = .ok 2 := rfl
  exact ⟨haccepted, (position_comes_back _ ⟨0, 1⟩ 2 haccepted).1⟩

/-- Behind a vertical tab a line still has a column, which is the start of the next line. -/
theorem position_lost_behind_vertical_tab :
    (ofText "a\x0Bb".toList).offsetOfPosition ⟨0, 2⟩ = .ok 2 ∧
      (ofText "a\x0Bb".toList).offsetOfPosition ⟨1, 0⟩ = .ok 2 ∧
      (ofText "a\x0Bb".toList).positionOfOffset 2 = .ok ⟨1, 0⟩ ∧
      ¬ ∀ (b : Buffer) (p : Position) (offset : Nat), b.offsetOfPosition p = .ok offset →
        b.positionOfOffset offset = .ok p := by
  have haccepted : (ofText "a\x0Bb".toList).offsetOfPosition ⟨0, 2⟩ = .ok 2 := rfl
  have hback : (ofText "a\x0Bb".toList).positionOfOffset 2 = .ok ⟨1, 0⟩ := rfl
  refine ⟨haccepted, rfl, hback, ?_⟩
  intro hall
  have hsame := hback.symm.trans (hall _ _ _ haccepted)
  cases hsame

end Buffer

end ClassHighlight
