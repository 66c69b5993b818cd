import ClassHighlight.Source.Mark

/-!
# What a mark tells

A scanner that recurses over marks never looks back. Here the facts that a mark carries are shown
to be those that a look back over the bytes before it would give: escapes follow by counting the
backslashes before the byte, and the start of a line by walking back to the last line feed.
-/

namespace ClassHighlight

/-- Whether only spaces and tabs stand before an index on its line. -/
def leadsLineAt (bytes : List UInt8) (index : Nat) : Bool :=
  ((bytes.take index).reverse.takeWhile fun b => b != '\n'.toUInt8).all
    fun b => b == ' '.toUInt8 || b == '\t'.toUInt8

/-- Escapes go forward: a byte is escaped by the byte before it, if that is a backslash which is
not escaped itself. -/
theorem isEscaped_succ {bs : List UInt8} {i : Nat} {b : UInt8} (h : bs[i]? = some b) :
    isEscaped bs (i + 1) = escapesNext (isEscaped bs i) b := by
  have htake : (bs.take (i + 1)).reverse = b :: (bs.take i).reverse := by
    rw [List.take_add_one, h]
    simp
  unfold isEscaped escapesNext
  rw [htake, List.takeWhile_cons]
  by_cases hb : (b == backslash) = true
  · rw [if_pos hb, List.length_cons, hb]
    -- one backslash more turns the parity around
    rcases Nat.mod_two_eq_zero_or_one
      ((bs.take i).reverse.takeWhile (· == backslash)).length with h0 | h1
    · simp [h0, Nat.add_mod]
    · simp [h1, Nat.add_mod]
  · rw [if_neg hb]
    simp [hb]

/-- A line goes forward: a byte leads its line if a line feed stands before it, or a blank that
leads the line itself. -/
theorem leadsLineAt_succ {bs : List UInt8} {i : Nat} {b : UInt8} (h : bs[i]? = some b) :
    leadsLineAt bs (i + 1) =
      (b == '\n'.toUInt8 || (leadsLineAt bs i && (b == ' '.toUInt8 || b == '\t'.toUInt8))) := by
  have htake : (bs.take (i + 1)).reverse = b :: (bs.take i).reverse := by
    rw [List.take_add_one, h]
    simp
  unfold leadsLineAt
  rw [htake, List.takeWhile_cons]
  -- the look back ends at a line feed, and at any other byte it goes one further
  by_cases hb : b = '\n'.toUInt8
  · simp [hb]
  · rw [if_pos (by simpa using hb), List.all_cons, Bool.and_comm]
    simp [hb]

namespace Mark

/-- The mark of a byte, read off from the bytes before its index. -/
def ofIndex (bytes : List UInt8) (index : Nat) (b : UInt8) : Mark where
  offset := index
  byte := b
  previous := (bytes.take index).getLast?
  escaped := isEscaped bytes index
  leadsLine := leadsLineAt bytes index

/-- Going on by one byte keeps a mark in accord with the bytes before it. -/
theorem next_ofIndex {bs : List UInt8} {i : Nat} {b : UInt8} (h : bs[i]? = some b) (c : UInt8) :
    (ofIndex bs i b).next c = ofIndex bs (i + 1) c := by
  have hlast : (bs.take (i + 1)).getLast? = some b := by
    rw [List.take_add_one, h]
    simp
  simp [next, ofIndex, isEscaped_succ h, leadsLineAt_succ h, hlast]

theorem getElem?_following {bs : List UInt8} {i : Nat} {b : UInt8} {rest : List UInt8}
    (h : bs.drop i = b :: rest) (k : Nat) :
    (following (ofIndex bs i b) rest)[k]? = rest[k]?.map (ofIndex bs (i + 1 + k)) := by
  -- the first of the following marks is a look back again, one index further on
  induction rest generalizing i b k with
  | nil => simp [following]
  | cons c rest ih =>
    have hb : bs[i]? = some b := by
      have := congrArg (fun l => l[0]?) h
      simpa using this
    have hdrop : bs.drop (i + 1) = c :: rest := by
      rw [← List.drop_drop, h]
      rfl
    rw [following, next_ofIndex hb]
    cases k with
    | zero => rfl
    | succ k =>
      rw [List.getElem?_cons_succ, List.getElem?_cons_succ, ih hdrop k]
      congr 2
      omega

/-- Each mark is the one that a look back over the bytes gives. -/
theorem getElem?_ofBytes (bs : List UInt8) (i : Nat) :
    (ofBytes bs)[i]? = bs[i]?.map (ofIndex bs i) := by
  cases bs with
  | nil => rfl
  | cons b rest =>
    -- nothing stands before the first byte
    have hstart : (⟨0, b, none, false, true⟩ : Mark) = ofIndex (b :: rest) 0 b := rfl
    rw [ofBytes, hstart]
    cases i with
    | zero => rfl
    | succ i =>
      rw [List.getElem?_cons_succ, List.getElem?_cons_succ, getElem?_following rfl]
      congr 2
      omega

section OfBytes

variable {bs : List UInt8} {i : Nat} {m : Mark}

theorem byte_of_getElem? (h : (ofBytes bs)[i]? = some m) : bs[i]? = some m.byte := by
  rw [getElem?_ofBytes] at h
  rcases Option.map_eq_some_iff.1 h with ⟨b, hb, rfl⟩
  exact hb

theorem eq_ofIndex (h : (ofBytes bs)[i]? = some m) : m = ofIndex bs i m.byte := by
  rw [getElem?_ofBytes] at h
  rcases Option.map_eq_some_iff.1 h with ⟨b, -, rfl⟩
  rfl

theorem offset_of_getElem? (h : (ofBytes bs)[i]? = some m) : m.offset = i := by
  rw [eq_ofIndex h]
  rfl

/-- A mark remembers the byte before it. -/
theorem previous_of_getElem? (h : (ofBytes bs)[i]? = some m) {b : UInt8} (hpos : 1 ≤ i)
    (hb : bs[i - 1]? = some b) : m.previous = some b := by
  rw [eq_ofIndex h]
  show (bs.take i).getLast? = some b
  rw [List.getLast?_take, if_neg (by omega), hb]
  rfl

theorem escaped_of_getElem? (h : (ofBytes bs)[i]? = some m) : m.escaped = isEscaped bs i := by
  rw [eq_ofIndex h]
  rfl

end OfBytes

end Mark

end ClassHighlight
