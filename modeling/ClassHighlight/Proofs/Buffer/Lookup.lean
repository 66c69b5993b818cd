import ClassHighlight.Proofs.Buffer.InPlace
import ClassHighlight.Proofs.Text.Lookup

/-!
# Offsets and the positions they have

The positions that are looked up in the lines of a text are those that a walk over the lines finds.
From the look-ups it follows that positions go up with offsets, from the walk that each position
leads back to the start of its character. Only the line feed of a carriage return and a line feed
has a position that leads nowhere.
-/

namespace ClassHighlight

namespace Position

/-! ## Look-ups and walks -/

/-- The walk over the lines ends on the line of the character, at its distance from the start. -/
theorem locate_eq (first : Nat) (ls : List Text) (index : Nat) :
    locate first ls index =
      ⟨first + Text.lineAt ls index, index - Text.lineStart ls (Text.lineAt ls index)⟩ := by
  fun_induction Text.lineAt ls index generalizing first with
  | case1 line next rest index hlt =>
    rw [locate_cons_cons, if_pos hlt]
    rfl
  | case2 line next rest index hge ih =>
    rw [locate_cons_cons, if_neg hge, ih, Text.lineStart_cons_succ, mk.injEq]
    omega
  | case3 ls index hshort =>
    -- there is at most one line
    cases ls with
    | nil => rfl
    | cons line rest =>
      cases rest with
      | nil => rfl
      | cons next rest => exact (hshort line next rest rfl).elim

theorem ofIndex_eq (t : Text) (index : Nat) :
    ofIndex t index =
      ⟨Text.lineAt t.lines index,
        index - Text.lineStart t.lines (Text.lineAt t.lines index)⟩ := by
  rw [ofIndex, locate_eq, Nat.zero_add]

/-- The walk back ends at a column of the line that is looked up. -/
theorem indexIn?_eq (ls : List Text) (line column : Nat) :
    indexIn? ls line column =
      match ls[line]? with
      | none => none
      | some l =>
        if column ≤ Text.columns l then some (Text.lineStart ls line + column) else none := by
  induction ls generalizing line with
  | nil => rfl
  | cons first rest ih =>
    cases line with
    | zero =>
      rw [indexIn?, List.getElem?_cons_zero]
      show _ = if column ≤ Text.columns first then some (0 + column) else none
      rw [Nat.zero_add]
    | succ line =>
      rw [indexIn?, ih, List.getElem?_cons_succ]
      cases rest[line]? with
      | none => rfl
      | some l =>
        simp only [Text.lineStart_cons_succ, Nat.add_assoc]
        split <;> rfl

/-! ## The order of positions -/

theorem isLE_compare_iff {p q : Position} :
    (compare p q).isLE = true ↔ p.line < q.line ∨ p.line = q.line ∧ p.column ≤ q.column := by
  show ((compare p.line q.line).then (compare p.column q.column)).isLE = true ↔ _
  rw [Ordering.isLE_then_iff_or, Nat.compare_eq_lt, Nat.compare_eq_eq, Nat.isLE_compare]

/-- Positions go up with indices. -/
theorem isLE_compare_ofIndex (t : Text) {index index' : Nat} (h : index ≤ index') :
    (compare (ofIndex t index) (ofIndex t index')).isLE = true := by
  rw [isLE_compare_iff, ofIndex_eq, ofIndex_eq]
  cases Nat.lt_or_eq_of_le (Text.lineAt_mono t.lines h) with
  | inl hlt => exact Or.inl hlt
  | inr heq =>
    right
    refine ⟨heq, ?_⟩
    rw [heq]
    exact Nat.sub_le_sub_right h _

/-- Different characters have different positions. -/
theorem ofIndex_eq_iff {t : Text} {index index' : Nat} :
    ofIndex t index = ofIndex t index' ↔ index = index' := by
  constructor
  · intro heq
    have hline := congrArg line heq
    have hcolumn := congrArg column heq
    rw [ofIndex_eq, ofIndex_eq] at hline hcolumn
    simp only at hline hcolumn
    -- both are equally far behind the start of the same line
    have hle := Text.lineStart_lineAt_le t.lines index
    have hle' := Text.lineStart_lineAt_le t.lines index'
    rw [hline] at hcolumn hle
    omega
  · intro heq
    rw [heq]

end Position

/-! ## The way back -/

namespace Text

/-- The character with a given index is a line feed behind a carriage return. -/
def IsInnerLineFeed (t : Text) (index : Nat) : Prop :=
  ∃ front rest, t = front ++ '\r' :: '\n' :: rest ∧ index = front.length + 1

theorem not_isInnerLineFeed_zero (t : Text) : ¬ t.IsInnerLineFeed 0 := by
  intro h
  obtain ⟨front, rest, -, hindex⟩ := h
  omega

/-- A character further on is such a line feed of the rest, or the next one of a carriage return. -/
theorem isInnerLineFeed_cons_succ {c : Char} {t : Text} {index : Nat} :
    IsInnerLineFeed (c :: t) (index + 1) ↔
      (index = 0 ∧ c = '\r' ∧ t.head? = some '\n') ∨ t.IsInnerLineFeed index := by
  constructor
  · intro h
    obtain ⟨front, rest, hsplit, hindex⟩ := h
    cases front with
    | nil =>
      obtain ⟨rfl, rfl⟩ := List.cons.inj hsplit
      exact Or.inl ⟨by simpa using hindex, rfl, rfl⟩
    | cons d front =>
      obtain ⟨rfl, rfl⟩ := List.cons.inj hsplit
      exact Or.inr ⟨front, rest, rfl, by simpa using hindex⟩
  · intro h
    cases h with
    | inl hhere =>
      obtain ⟨rfl, rfl, hhead⟩ := hhere
      obtain ⟨rest, rfl⟩ := List.head?_eq_some_iff.1 hhead
      exact ⟨[], rest, rfl, rfl⟩
    | inr hlater =>
      obtain ⟨front, rest, rfl, rfl⟩ := hlater
      exact ⟨c :: front, rest, rfl, rfl⟩

/-- At the end of the characters before it, the character is such a line feed if it is one and they
end in a carriage return. -/
theorem isInnerLineFeed_length_iff {front rest : Text} {c : Char} :
    IsInnerLineFeed (front ++ c :: rest) front.length ↔
      c = '\n' ∧ front.getLast? = some '\r' := by
  constructor
  · intro h
    obtain ⟨front', rest', hsplit, hlength⟩ := h
    rw [List.append_cons front' '\r'] at hsplit
    obtain ⟨rfl, hbehind⟩ := List.append_inj hsplit (by simpa using hlength)
    exact ⟨(List.cons.inj hbehind).1, List.getLast?_concat⟩
  · intro h
    obtain ⟨rfl, hlast⟩ := h
    obtain ⟨front', rfl⟩ := List.getLast?_eq_some_iff.1 hlast
    exact ⟨front', rest, by simp, by simp⟩

theorem not_isInnerLineFeed_end (t : Text) : ¬ t.IsInnerLineFeed t.length := by
  intro h
  obtain ⟨front, rest, rfl, hindex⟩ := h
  simp only [List.length_append, List.length_cons] at hindex
  omega

/-- A character in front of a line that is no part of a break adds a column. -/
theorem columns_cons {c : Char} (hplain : isLineBreak c = false) (line : Text) :
    columns (c :: line) = columns line + 1 := by
  have hfeed : c ≠ '\n' := by
    rintro rfl
    cases hplain
  have hreturn : c ≠ '\r' := by
    rintro rfl
    cases hplain
  unfold columns
  rw [List.reverse_cons]
  -- only the last two characters of the line matter, and the one in front may be the last but one
  cases line.reverse with
  | nil => simp [hfeed]
  | cons d before =>
    by_cases hd : d = '\n'
    · subst hd
      cases before with
      | nil => simp [hreturn]
      | cons e before =>
        by_cases he : e = '\r'
        · subst he
          simp
        · simp [he]
    · simp [hd]

end Text

namespace Position

/-- The index that the position of an index leads back to. -/
def comesBack? (ls : List Text) (index : Nat) : Option Nat :=
  indexIn? ls (locate 0 ls index).line (locate 0 ls index).column

theorem comesBack?_of_lt {line next : Text} {rest : List Text} {index : Nat}
    (h : index < line.length) :
    comesBack? (line :: next :: rest) index =
      if index ≤ Text.columns line then some index else none := by
  unfold comesBack?
  rw [locate_cons_cons, if_pos h]
  rfl

theorem comesBack?_of_le {line next : Text} {rest : List Text} {index : Nat}
    (h : line.length ≤ index) :
    comesBack? (line :: next :: rest) index =
      (comesBack? (next :: rest) (index - line.length)).map (line.length + ·) := by
  unfold comesBack?
  rw [locate_cons_cons, if_neg (Nat.not_lt.2 h), locate_eq, locate_eq, Nat.zero_add,
    Nat.zero_add, Nat.add_comm 1]
  rfl

/-- Indices of a line in front of others come back from it, and the other ones from the others. -/
theorem comesBack?_line (line : Text) {ls : List Text} (hne : ls ≠ []) (index : Nat) :
    comesBack? (line :: ls) index =
      if index < line.length then (if index ≤ Text.columns line then some index else none)
      else (comesBack? ls (index - line.length)).map (line.length + ·) := by
  cases ls with
  | nil => exact absurd rfl hne
  | cons next rest =>
    split
    · exact comesBack?_of_lt ‹_›
    · exact comesBack?_of_le (Nat.le_of_not_lt ‹_›)

/-- A character in front of the first line moves everything by one. -/
theorem comesBack?_consToLine {c : Char} (hplain : Text.isLineBreak c = false) {ls : List Text}
    (hne : ls ≠ []) (index : Nat) :
    comesBack? (Text.consToLine c ls) (index + 1) = (comesBack? ls index).map (1 + ·) := by
  cases ls with
  | nil => exact absurd rfl hne
  | cons line rest =>
    have hcolumns := Text.columns_cons hplain line
    have hfirst : (if index + 1 ≤ Text.columns (c :: line) then some (index + 1) else none) =
        (if index ≤ Text.columns line then some index else none).map (1 + ·) := by
      by_cases hle : index ≤ Text.columns line
      · rw [if_pos hle, if_pos (by omega), Option.map_some, Nat.add_comm]
      · rw [if_neg hle, if_neg (by omega), Option.map_none]
    rw [Text.consToLine]
    cases rest with
    | nil => exact hfirst
    | cons next rest =>
      by_cases hlt : index < line.length
      · rw [comesBack?_of_lt hlt, comesBack?_of_lt (by rw [List.length_cons]; omega)]
        exact hfirst
      · rw [comesBack?_of_le (Nat.le_of_not_lt hlt),
          comesBack?_of_le (by rw [List.length_cons]; omega), Option.map_map, List.length_cons,
          Nat.add_sub_add_right]
        congr 1
        funext n
        show line.length + 1 + n = 1 + (line.length + n)
        omega

/-- The position of an index leads back to it, except for a line feed behind a carriage return,
which no position leads to. -/
def LeadsBack (t : Text) (index : Nat) : Prop :=
  (t.IsInnerLineFeed index ∧ comesBack? t.lines index = none) ∨
    (¬ t.IsInnerLineFeed index ∧ comesBack? t.lines index = some index)

/-- What leads back, or does not, in the rest of a text does so in the text. -/
theorem LeadsBack.of_rest {t rest : Text} {index n k : Nat} (hindex : index = n + k)
    (hinner : t.IsInnerLineFeed index ↔ rest.IsInnerLineFeed k)
    (hback : comesBack? t.lines index = (comesBack? rest.lines k).map (n + ·))
    (h : LeadsBack rest k) : LeadsBack t index := by
  cases h with
  | inl hfeed =>
    left
    refine ⟨hinner.2 hfeed.1, ?_⟩
    rw [hback, hfeed.2]
    rfl
  | inr hother =>
    right
    refine ⟨fun hin => hother.1 (hinner.1 hin), ?_⟩
    rw [hback, hother.2, hindex]
    rfl

theorem leadsBack_zero (t : Text) : LeadsBack t 0 := by
  right
  refine ⟨Text.not_isInnerLineFeed_zero t, ?_⟩
  have hne := Text.lines_ne_nil t
  unfold comesBack?
  rw [locate_zero (Text.isDivided_lines t)]
  cases hlines : t.lines with
  | nil => exact absurd hlines hne
  | cons line rest => rfl

/-- In a break of two characters the second one does not lead back. -/
theorem LeadsBack.pair {rest : Text} (h : ∀ k, k ≤ rest.length → LeadsBack rest k) {index : Nat}
    (hindex : index ≤ ('\r' :: '\n' :: rest).length) :
    LeadsBack ('\r' :: '\n' :: rest) index := by
  have hlines : Text.lines ('\r' :: '\n' :: rest) = ['\r', '\n'] :: Text.lines rest := by
    rw [Text.lines]
  have hback := comesBack?_line ['\r', '\n'] (Text.lines_ne_nil rest) index
  match index with
  | 0 => exact leadsBack_zero _
  | 1 =>
    left
    refine ⟨⟨[], rest, rfl, rfl⟩, ?_⟩
    rw [hlines, hback]
    rfl
  | k + 2 =>
    apply LeadsBack.of_rest (Nat.add_comm k 2) _ _ (h k (Nat.le_of_add_le_add_right hindex))
    · rw [Text.isInnerLineFeed_cons_succ, Text.isInnerLineFeed_cons_succ]
      simp
    · rw [hlines, hback]
      rfl

/-- A character that no line feed follows as a part of its break leaves it to the rest which
characters lead back. -/
theorem LeadsBack.cons {c : Char} {rest : Text} (hpair : ∀ behind, c = '\r' → rest ≠ '\n' :: behind)
    {k : Nat}
    (hback : comesBack? (Text.lines (c :: rest)) (k + 1) =
      (comesBack? rest.lines k).map (1 + ·)) (h : LeadsBack rest k) :
    LeadsBack (c :: rest) (k + 1) := by
  apply LeadsBack.of_rest (Nat.add_comm k 1) _ hback h
  rw [Text.isInnerLineFeed_cons_succ]
  constructor
  · intro hor
    cases hor with
    | inl hhere =>
      obtain ⟨-, hc, hhead⟩ := hhere
      obtain ⟨behind, hrest⟩ := List.head?_eq_some_iff.1 hhead
      exact absurd hrest (hpair behind hc)
    | inr hlater => exact hlater
  · exact Or.inr

theorem leadsBack (t : Text) {index : Nat} (h : index ≤ t.length) : LeadsBack t index := by
  -- the induction follows the division into lines: a pair, another break, or no break stands first
  fun_induction Text.lines t generalizing index with
  | case1 =>
    rw [Nat.le_zero.1 h]
    exact leadsBack_zero _
  | case2 rest ih => exact LeadsBack.pair (fun _ hk => ih hk) h
  | case3 c rest hpair hbreak ih =>
    cases index with
    | zero => exact leadsBack_zero _
    | succ k =>
      have hlines : Text.lines (c :: rest) = [c] :: Text.lines rest := by
        rw [Text.lines, if_pos hbreak]
        exact hpair
      apply LeadsBack.cons hpair _ (ih (Nat.le_of_succ_le_succ h))
      rw [hlines, comesBack?_line [c] (Text.lines_ne_nil rest) (k + 1)]
      rfl
  | case4 c rest hpair hplain ih =>
    cases index with
    | zero => exact leadsBack_zero _
    | succ k =>
      have hlines : Text.lines (c :: rest) = Text.consToLine c (Text.lines rest) := by
        rw [Text.lines, if_neg hplain]
        exact hpair
      apply LeadsBack.cons hpair _ (ih (Nat.le_of_succ_le_succ h))
      rw [hlines]
      exact comesBack?_consToLine (by simpa using hplain) (Text.lines_ne_nil rest) k

/-- The way back from the position of an index, with what it says when it fails. -/
theorem index?_ofIndex (t : Text) (index : Nat) :
    index? t (ofIndex t index) = comesBack? t.lines index := rfl

end Position

/-! ## Buffers -/

namespace RawBuffer

variable {b : RawBuffer}

theorem positionOfIndex_eq (b : RawBuffer) (index : Nat) :
    b.positionOfIndex index = Position.ofIndex b.text index :=
  (Position.ofIndex_eq b.text index).symm

/-- Looking a position up finds the index that a walk over the lines finds. -/
theorem indexOfPosition_eq (b : RawBuffer) (p : Position) :
    b.indexOfPosition p =
      match Position.index? b.text p with
      | some index => .ok index
      | none => .error (.outOfBounds p) := by
  rw [indexOfPosition, Position.index?, Position.indexIn?_eq]
  cases b.text.lines[p.line]? with
  | none => rfl
  | some line =>
    simp only [Text.lengthWithoutBreak_eq_columns]
    by_cases hle : p.column ≤ Text.columns line
    · rw [if_neg (Nat.not_lt.2 hle), if_pos hle]
    · rw [if_pos (Nat.lt_of_not_le hle), if_neg hle]

/-- The positions of a text that is changed in place are those of the whole buffer. -/
theorem positionOfOffset_raw (whole : Buffer) (offset : Nat) :
    whole.raw.positionOfOffset offset = whole.positionOfOffset offset := by
  rw [positionOfOffset, Buffer.positionOfOffset, Buffer.indexOfOffset, Buffer.byteCount,
    Buffer.raw_text]
  by_cases hle : offset ≤ Text.byteLength whole.text
  · rw [if_neg (Nat.not_lt.2 hle), if_pos hle, positionOfIndex_eq]
    rfl
  · rw [if_pos (Nat.lt_of_not_le hle), if_neg hle]
    rfl

theorem offsetOfPosition_raw (whole : Buffer) (p : Position) :
    whole.raw.offsetOfPosition p = whole.offsetOfPosition p := by
  rw [offsetOfPosition, indexOfPosition_eq]
  rfl

theorem cursorPosition_raw (whole : Buffer) :
    whole.raw.cursorPosition = whole.cursorPosition :=
  positionOfIndex_eq whole.raw whole.cursor

/-- An offset of the text has the position of its character. -/
theorem positionOfOffset_of_le {offset : Nat} (h : offset ≤ Text.byteLength b.text) :
    b.positionOfOffset offset = .ok (Position.ofIndex b.text (Text.indexOfByte offset b.text)) := by
  rw [positionOfOffset, if_neg (Nat.not_lt.2 h), positionOfIndex_eq]

theorem le_of_positionOfOffset {offset : Nat} {p : Position}
    (h : b.positionOfOffset offset = .ok p) : offset ≤ Text.byteLength b.text := by
  apply Nat.le_of_not_lt
  intro hlt
  rw [positionOfOffset, if_pos hlt] at h
  cases h

/-- The position of a character leads back to the offset where it starts. -/
theorem offsetOfPosition_ofIndex {index : Nat} (h : index ≤ b.text.length)
    (hfeed : ¬ b.text.IsInnerLineFeed index) :
    b.offsetOfPosition (Position.ofIndex b.text index) =
      .ok (Text.byteLength (b.text.take index)) := by
  cases Position.leadsBack b.text h with
  | inl hback => exact absurd hback.1 hfeed
  | inr hback =>
    rw [offsetOfPosition, indexOfPosition_eq, Position.index?_ofIndex, hback.2]
    rfl

/-- The position of a line feed behind a carriage return leads nowhere. -/
theorem offsetOfPosition_ofIndex_of_isInnerLineFeed {index : Nat} (h : index ≤ b.text.length)
    (hfeed : b.text.IsInnerLineFeed index) :
    b.offsetOfPosition (Position.ofIndex b.text index) =
      .error (.outOfBounds (Position.ofIndex b.text index)) := by
  cases Position.leadsBack b.text h with
  | inl hback =>
    rw [offsetOfPosition, indexOfPosition_eq, Position.index?_ofIndex, hback.2]
    rfl
  | inr hback => exact absurd hfeed hback.1

/-- Each byte of a character has a position, which leads back to where the character starts, or is
refused if that is a line feed behind a carriage return. -/
theorem exists_position_of_character {front rest : Text} {c : Char} {k : Nat}
    (htext : b.text = front ++ c :: rest) (hk : k < c.utf8Size) :
    ∃ p, b.positionOfOffset (Text.byteLength front + k) = .ok p ∧
      b.offsetOfPosition p =
        if c = '\n' ∧ front.getLast? = some '\r' then .error (.outOfBounds p)
        else .ok (Text.byteLength front) := by
  have hindex : Text.indexOfByte (Text.byteLength front + k) b.text = front.length := by
    rw [htext, Text.indexOfByte_within front rest hk]
  have hle : Text.byteLength front + k ≤ Text.byteLength b.text := by
    rw [htext, Text.byteLength_append, Text.byteLength_cons]
    omega
  have hlength : front.length ≤ b.text.length := by
    rw [htext, List.length_append]
    exact Nat.le_add_right _ _
  have hfeed : b.text.IsInnerLineFeed front.length ↔ c = '\n' ∧ front.getLast? = some '\r' := by
    rw [htext, Text.isInnerLineFeed_length_iff]
  have hstart : b.text.take front.length = front := by
    rw [htext, List.take_left]
  refine ⟨Position.ofIndex b.text front.length, ?_, ?_⟩
  · rw [positionOfOffset_of_le hle, hindex]
  · by_cases hinner : c = '\n' ∧ front.getLast? = some '\r'
    · rw [if_pos hinner]
      exact offsetOfPosition_ofIndex_of_isInnerLineFeed hlength (hfeed.2 hinner)
    · rw [if_neg hinner, offsetOfPosition_ofIndex hlength fun hin => hinner (hfeed.1 hin), hstart]

/-- Positions go up with offsets, and only bytes of one character have the same one. -/
theorem compare_positionOfOffset {offset offset' : Nat} {p p' : Position}
    (hp : b.positionOfOffset offset = .ok p) (hp' : b.positionOfOffset offset' = .ok p') :
    (offset ≤ offset' → (compare p p').isLE = true) ∧
      (p = p' ↔ b.text.InSameCharacter offset offset') := by
  have hle := le_of_positionOfOffset hp
  have hle' := le_of_positionOfOffset hp'
  rw [positionOfOffset_of_le hle] at hp
  rw [positionOfOffset_of_le hle'] at hp'
  cases hp
  cases hp'
  constructor
  · intro horder
    exact Position.isLE_compare_ofIndex b.text (Text.indexOfByte_mono b.text horder)
  · rw [Position.ofIndex_eq_iff, Text.indexOfByte_eq_iff hle hle']

/-- How the offsets of a text belong to its positions. -/
structure TranslatesOffsets (b : RawBuffer) : Prop where
  /-- The position of each byte of a character leads back to where the character starts, unless it
  is the line feed of a break of two characters: that position is refused. -/
  character : ∀ front c rest k, b.text = front ++ c :: rest → k < c.utf8Size →
    ∃ p, b.positionOfOffset (Text.byteLength front + k) = .ok p ∧
      b.offsetOfPosition p =
        if c = '\n' ∧ front.getLast? = some '\r' then .error (.outOfBounds p)
        else .ok (Text.byteLength front)
  /-- The position of the end leads back to the end. -/
  atEnd : ∃ p, b.positionOfOffset (Text.byteLength b.text) = .ok p ∧
    b.offsetOfPosition p = .ok (Text.byteLength b.text)
  /-- There are no positions behind the end. -/
  behind : ∀ offset, Text.byteLength b.text < offset →
    b.positionOfOffset offset = .error (.byteOffset offset)
  /-- Positions go up with offsets, line before column, and offsets have the same one exactly if
  they belong to the same character. -/
  order : ∀ offset offset' p p', b.positionOfOffset offset = .ok p →
    b.positionOfOffset offset' = .ok p' →
      (offset ≤ offset' → (compare p p').isLE = true) ∧
        (p = p' ↔ b.text.InSameCharacter offset offset')
  /-- The cursor has the position of its offset. -/
  cursor : b.positionOfOffset b.cursorOffset = .ok b.cursorPosition

theorem translatesOffsets_of_within (h : b.cursor ≤ b.text.length) : b.TranslatesOffsets := by
  constructor
  · intro front c rest k htext hk
    exact exists_position_of_character htext hk
  · refine ⟨Position.ofIndex b.text b.text.length, ?_, ?_⟩
    · rw [positionOfOffset_of_le (Nat.le_refl _), Text.indexOfByte_end]
    · rw [offsetOfPosition_ofIndex (Nat.le_refl _) (Text.not_isInnerLineFeed_end b.text),
        List.take_length]
  · intro offset hlt
    rw [positionOfOffset, if_pos hlt]
  · intro offset offset' p p' hp hp'
    exact compare_positionOfOffset hp hp'
  · have hle : b.cursorOffset ≤ Text.byteLength b.text := Text.byteLength_take_le b.text b.cursor
    have hindex : Text.indexOfByte b.cursorOffset b.text = b.cursor :=
      Text.indexOfByte_byteLength_take h
    rw [positionOfOffset_of_le hle, hindex, cursorPosition, positionOfIndex_eq]

/-- Whatever is done in place to a text that was loaded, its positions and offsets are those of the
whole buffer. Each offset has a position, which leads back to the start of its character unless that
is a line feed behind a carriage return; positions go up with offsets, and the cursor has the one of
its offset. -/
theorem run_translatesOffsets (text : Text) (path? : Option Text) (ops : List Buffer.Operation) :
    let whole := ({ Buffer.ofText text with path? }).run ops
    let b := (fresh text path?).run ops
    (∀ offset, b.positionOfOffset offset = whole.positionOfOffset offset) ∧
      (∀ p, b.offsetOfPosition p = whole.offsetOfPosition p) ∧
      b.cursorPosition = whole.cursorPosition ∧ b.TranslatesOffsets := by
  intro whole b
  have hraw : b = whole.raw := Buffer.run_raw { Buffer.ofText text with path? } ops
  rw [hraw]
  exact ⟨positionOfOffset_raw whole, offsetOfPosition_raw whole, cursorPosition_raw whole,
    translatesOffsets_of_within whole.cursor_le⟩

/-- Inside an arrow, at a line feed behind a carriage return, and at the end of a text. -/
example : (fresh "a→\r\n".toList none).positionOfOffset 3 = .ok ⟨0, 1⟩ ∧
    (fresh "a→\r\n".toList none).offsetOfPosition ⟨0, 1⟩ = .ok 1 ∧
    (fresh "a→\r\n".toList none).positionOfOffset 5 = .ok ⟨0, 3⟩ ∧
    (fresh "a→\r\n".toList none).offsetOfPosition ⟨0, 3⟩ = .error (.outOfBounds ⟨0, 3⟩) ∧
    (fresh "a→\r\n".toList none).positionOfOffset 6 = .ok ⟨1, 0⟩ :=
  ⟨rfl, rfl, rfl, rfl, rfl⟩

end RawBuffer

end ClassHighlight
