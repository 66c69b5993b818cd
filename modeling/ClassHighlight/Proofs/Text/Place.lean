import ClassHighlight.Text.Basic

/-!
# Places in a text

A part of a text stands at the byte offset where the text before it ends. Such offsets are the
character boundaries of the text. An ASCII byte is a character of its own, so there are boundaries
on both of its sides, and what stands between two ASCII bytes can be cut out.
-/

namespace ClassHighlight

namespace Text

theorem byteLength_pos {t : Text} (h : t ≠ []) : 0 < byteLength t := by
  cases t with
  | nil => exact absurd rfl h
  | cons c rest =>
    have := c.utf8Size_pos
    rw [byteLength_cons]
    omega

/-- Of two starts of a text the one that is not longer is a start of the other one. -/
theorem prefix_of_byteLength_le {front rest front' rest' : Text}
    (h : front ++ rest = front' ++ rest') (hle : byteLength front ≤ byteLength front') :
    front <+: front' := by
  rcases List.append_eq_append_iff.1 h with ⟨part, rfl, -⟩ | ⟨part, rfl, -⟩
  · exact List.prefix_append front part
  · cases part with
    | nil => exact ⟨[], by simp⟩
    | cons c part =>
      have := c.utf8Size_pos
      rw [byteLength_append, byteLength_cons] at hle
      omega

/-- A part stands at a byte offset of a text. -/
def HasAt (t : Text) (offset : Nat) (part : Text) : Prop :=
  ∃ before after, t = before ++ part ++ after ∧ byteLength before = offset

/-- A byte offset lies on a character boundary. -/
def IsBoundary (t : Text) (offset : Nat) : Prop :=
  ∃ before after, t = before ++ after ∧ byteLength before = offset

namespace HasAt

variable {t part inner : Text} {offset offset' : Nat}

/-- A text stands at its own start. -/
theorem whole (t : Text) : t.HasAt 0 t :=
  ⟨[], [], by simp, rfl⟩

/-- Offsets add up when a part is taken from a part. -/
theorem trans (h : t.HasAt offset part) (h' : part.HasAt offset' inner) :
    t.HasAt (offset + offset') inner := by
  rcases h with ⟨before, after, rfl, rfl⟩
  rcases h' with ⟨before', after', rfl, rfl⟩
  exact ⟨before ++ before', after' ++ after, by simp, by simp⟩

theorem le_byteLength (h : t.HasAt offset part) : offset + byteLength part ≤ byteLength t := by
  rcases h with ⟨before, after, rfl, rfl⟩
  simp only [byteLength_append]
  omega

/-- A part that stands somewhere can be cut out there. -/
theorem slice? (h : t.HasAt offset part) :
    Text.slice? t offset (offset + byteLength part) = some part := by
  rcases h with ⟨before, after, rfl, rfl⟩
  unfold Text.slice?
  rw [if_pos (Nat.le_add_right _ _), Nat.add_sub_cancel_left, List.append_assoc,
    splitAtByte?_append, Option.bind_some]
  simp only
  rw [splitAtByte?_append]
  rfl

/-- What stands behind the first character of a text stands further on in the text. -/
theorem cons (h : t.HasAt offset part) (c : Char) : HasAt (c :: t) (c.utf8Size + offset) part :=
  trans ⟨[c], [], by simp, by simp⟩ h

/-- What stands in a text stands there whatever follows the text. -/
theorem append_right (h : t.HasAt offset part) (behind : Text) :
    (t ++ behind).HasAt offset part := by
  rcases h with ⟨before, after, rfl, rfl⟩
  exact ⟨before, after ++ behind, by simp, rfl⟩

/-- The bytes of a part are those of the text from its offset on. -/
theorem getElem?_bytes (h : t.HasAt offset part) {k : Nat} (hk : k < byteLength part) :
    (bytes t)[offset + k]? = (bytes part)[k]? := by
  rcases h with ⟨before, after, rfl, rfl⟩
  rw [← length_bytes] at hk
  rw [bytes_append, bytes_append, List.append_assoc, ← length_bytes,
    List.getElem?_append_right (Nat.le_add_right _ _), Nat.add_sub_cancel_left,
    List.getElem?_append_left hk]

/-- A character at an offset within the first part of a text stands there in that part. -/
theorem of_lt {s t : Text} {c : Char} (h : (s ++ t).HasAt offset [c])
    (hlt : offset < byteLength s) : s.HasAt offset [c] := by
  rcases h with ⟨before, after, hsplit, rfl⟩
  rw [List.append_assoc] at hsplit
  rcases List.append_eq_append_iff.1 hsplit with ⟨part, rfl, -⟩ | ⟨part, rfl, hafter⟩
  · -- the offset would lie behind the first part
    rw [byteLength_append] at hlt
    omega
  · cases part with
    | nil => simp at hlt
    | cons d part =>
      obtain ⟨rfl, -⟩ := List.cons.inj hafter
      exact ⟨before, part, by simp, rfl⟩

/-- What stands behind the first part of a text stands in the other one. -/
theorem of_le {front rest : Text} (h : (front ++ rest).HasAt offset part)
    (hle : byteLength front ≤ offset) : ∃ k, offset = byteLength front + k ∧ rest.HasAt k part := by
  rcases h with ⟨before, after, hsplit, rfl⟩
  rw [List.append_assoc] at hsplit
  rcases List.append_eq_append_iff.1 hsplit with ⟨t, rfl, hrest⟩ | ⟨t, rfl, hrest⟩
  · exact ⟨byteLength t, byteLength_append front t, t, after, by rw [hrest, List.append_assoc], rfl⟩
  · cases t with
    | nil => exact ⟨0, by simp, [], after, by simpa using hrest.symm, rfl⟩
    | cons c t =>
      -- the first part would reach behind the offset
      have := c.utf8Size_pos
      rw [byteLength_append, byteLength_cons] at hle
      omega

/-- Only one character stands behind the first part of a text. -/
theorem eq_of_front {front rest : Text} {c d : Char}
    (h : (front ++ c :: rest).HasAt (byteLength front) [d]) : c = d := by
  rcases h.of_le (Nat.le_refl _) with ⟨k, hk, before, after, hsplit, hlength⟩
  cases before with
  | nil => exact (List.cons.inj hsplit).1
  | cons e before =>
    have := e.utf8Size_pos
    rw [byteLength_cons] at hlength
    omega

end HasAt

/-- The end of a text can be cut off at a boundary. -/
theorem slice?_end (front rest : Text) :
    (front ++ rest).slice? (byteLength front) (byteLength (front ++ rest)) = some rest := by
  have hat : (front ++ rest).HasAt (byteLength front) rest := ⟨front, [], by simp, rfl⟩
  rw [byteLength_append]
  exact hat.slice?

/-- A character that stands at no place of a part is not in it. -/
theorem not_mem_of_not_hasAt {t behind : Text} {c : Char}
    (h : ∀ i < byteLength t, ¬ (t ++ behind).HasAt i [c]) : c ∉ t := by
  intro hin
  rcases List.append_of_mem hin with ⟨front, after, rfl⟩
  have hpos := c.utf8Size_pos
  apply h (byteLength front)
  · rw [byteLength_append, byteLength_cons]
    omega
  · exact ⟨front, after ++ behind, by simp, rfl⟩

/-- Between two boundaries there is a part of the text. -/
theorem IsBoundary.hasAt {t : Text} {start stop : Nat} (hstart : t.IsBoundary start)
    (hstop : t.IsBoundary stop) (hle : start ≤ stop) :
    ∃ part, t.HasAt start part ∧ stop = start + byteLength part := by
  rcases hstart with ⟨before, after, rfl, rfl⟩
  rcases hstop with ⟨before', after', heq, rfl⟩
  -- of the two texts before the boundaries one is the start of the other
  rcases List.append_eq_append_iff.1 heq with ⟨part, rfl, rfl⟩ | ⟨part, rfl, rfl⟩
  · exact ⟨part, ⟨before, after', by simp, rfl⟩, by simp⟩
  · -- the two boundaries are the same
    rw [byteLength_append] at hle
    have hempty : byteLength part = 0 := by omega
    refine ⟨[], ⟨before' ++ part, after, by simp, rfl⟩, ?_⟩
    rw [byteLength_append, hempty]
    rfl

/-! ## Characters and boundaries -/

/-- Between any two characters there is a boundary. -/
theorem isBoundary_take (t : Text) (index : Nat) : t.IsBoundary (byteLength (t.take index)) :=
  ⟨t.take index, t.drop index, (List.take_append_drop index t).symm, rfl⟩

theorem byteLength_take_le (t : Text) (index : Nat) : byteLength (t.take index) ≤ byteLength t := by
  conv => rhs; rw [← List.take_append_drop index t, byteLength_append]
  exact Nat.le_add_right _ _

/-- The byte behind some characters belongs to the next one. -/
theorem indexOfByte_byteLength_take {t : Text} {index : Nat} (h : index ≤ t.length) :
    indexOfByte (byteLength (t.take index)) t = index := by
  induction t generalizing index with
  | nil =>
    rw [Nat.le_zero.1 h]
    rfl
  | cons c rest ih =>
    have hpos := c.utf8Size_pos
    cases index with
    | zero => rw [List.take_zero, byteLength_nil, indexOfByte, if_pos hpos]
    | succ index =>
      rw [List.take_succ_cons, byteLength_cons, indexOfByte, if_neg (by omega),
        Nat.add_sub_cancel_left, ih (Nat.le_of_succ_le_succ h)]

/-- The character that holds a byte starts at that byte or before it. -/
theorem byteLength_take_indexOfByte_le (n : Nat) (t : Text) :
    byteLength (t.take (indexOfByte n t)) ≤ n := by
  induction t generalizing n with
  | nil => exact Nat.zero_le n
  | cons c rest ih =>
    rw [indexOfByte]
    split
    · exact Nat.zero_le n
    · have := ih (n - c.utf8Size)
      rw [List.take_succ_cons, byteLength_cons]
      omega

/-- No boundary lies behind the start of a character and not behind a byte that it holds. -/
theorem IsBoundary.le_byteLength_take {t : Text} {m n : Nat} (h : t.IsBoundary m) (hle : m ≤ n) :
    m ≤ byteLength (t.take (indexOfByte n t)) := by
  rcases h with ⟨before, after, rfl, rfl⟩
  induction before generalizing n with
  | nil => exact Nat.zero_le _
  | cons c before ih =>
    rw [byteLength_cons] at hle
    have := ih (n := n - c.utf8Size) (by omega)
    rw [List.cons_append, indexOfByte, if_neg (by omega), List.take_succ_cons, byteLength_cons,
      byteLength_cons]
    omega

/-! ## ASCII bytes -/

/-- Only a character of one byte has an ASCII byte in its encoding. -/
theorem utf8Size_of_ascii {c : Char} {b : UInt8} (h : b ∈ String.utf8EncodeChar c)
    (hb : b < 0x80) : c.utf8Size = 1 := by
  -- every byte of a longer encoding has its highest bit set
  have hlarge : ∀ n k, 128 ≤ k → k + n < 256 → ¬ UInt8.ofNat (n + k) < 0x80 := by
    intro n k hk hlt
    rw [UInt8.lt_iff_toNat_lt, UInt8.toNat_ofNat']
    show ¬ (n + k) % 256 < 128
    omega
  unfold String.utf8EncodeChar at h
  simp only at h
  split at h
  · rename_i hsmall
    rw [Char.utf8Size_eq_one_iff]
    exact hsmall
  · exfalso
    revert hb
    split at h
    · simp only [List.mem_cons, List.not_mem_nil, or_false] at h
      rcases h with rfl | rfl <;> exact hlarge _ _ (by omega) (by omega)
    · split at h
      · simp only [List.mem_cons, List.not_mem_nil, or_false] at h
        rcases h with rfl | rfl | rfl <;> exact hlarge _ _ (by omega) (by omega)
      · simp only [List.mem_cons, List.not_mem_nil, or_false] at h
        rcases h with rfl | rfl | rfl | rfl <;> exact hlarge _ _ (by omega) (by omega)

/-- An ASCII byte in the encoding of a character is that character. -/
theorem eq_of_ascii_mem {c d : Char} (hd : d.val < 0x80)
    (h : d.toUInt8 ∈ String.utf8EncodeChar c) : c = d := by
  have hsmall : d.val.toNat < 128 := hd
  have hbyte : d.toUInt8.toNat = d.val.toNat := by
    show d.val.toUInt8.toNat = _
    rw [UInt32.toNat_toUInt8]
    omega
  have hone : c.utf8Size = 1 := by
    apply utf8Size_of_ascii h
    rw [UInt8.lt_iff_toNat_lt, hbyte]
    exact hsmall
  -- the character is encoded by its code point, which is the byte
  have hcode : c.val.toNat ≤ 127 := Char.utf8Size_eq_one_iff.1 hone
  rw [String.utf8EncodeChar_eq_singleton hone, List.mem_singleton] at h
  apply Char.ext
  apply UInt32.toNat_inj.1
  have heq := congrArg UInt8.toNat h
  rw [hbyte, UInt32.toNat_toUInt8] at heq
  omega

theorem bytes_singleton (c : Char) : bytes [c] = String.utf8EncodeChar c := by
  simp [bytes]

theorem utf8EncodeChar_of_ascii {d : Char} (hd : d.val < 0x80) :
    String.utf8EncodeChar d = [d.toUInt8] :=
  String.utf8EncodeChar_eq_singleton (Char.utf8Size_eq_one_iff.2 (Nat.le_of_lt_succ hd))

/-- ASCII characters are told apart by their bytes. -/
theorem toUInt8_eq_iff {c d : Char} (hc : c.val < 0x80) (hd : d.val < 0x80) :
    c.toUInt8 = d.toUInt8 ↔ c = d := by
  refine ⟨fun heq => ?_, congrArg Char.toUInt8⟩
  apply eq_of_ascii_mem hd
  rw [utf8EncodeChar_of_ascii hc, heq]
  exact List.mem_singleton_self _

/-- Each place within a text lies in a character. -/
theorem exists_char_at {t : Text} {i : Nat} (h : i < byteLength t) :
    ∃ front c rest k, t = front ++ c :: rest ∧ i = byteLength front + k ∧ k < c.utf8Size := by
  induction t generalizing i with
  | nil => exact absurd h (Nat.not_lt_zero i)
  | cons c t ih =>
    rw [byteLength_cons] at h
    by_cases hi : i < c.utf8Size
    · exact ⟨[], c, t, i, rfl, (Nat.zero_add i).symm, hi⟩
    · rcases ih (i := i - c.utf8Size) (by omega) with ⟨front, d, rest, k, rfl, hk, hlt⟩
      refine ⟨c :: front, d, rest, k, rfl, ?_, hlt⟩
      rw [byteLength_cons]
      omega

/-- Each byte of a text belongs to a character. -/
theorem exists_char_of_byte {t : Text} {i : Nat} {b : UInt8} (h : (bytes t)[i]? = some b) :
    ∃ front c rest k, t = front ++ c :: rest ∧ i = byteLength front + k ∧ k < c.utf8Size ∧
      b ∈ String.utf8EncodeChar c := by
  have hlt := (List.getElem?_eq_some_iff.1 h).1
  rw [length_bytes] at hlt
  rcases exists_char_at hlt with ⟨front, c, rest, k, rfl, rfl, hk⟩
  have hat : HasAt (front ++ c :: rest) (byteLength front) [c] := ⟨front, rest, by simp, rfl⟩
  rw [hat.getElem?_bytes (by rw [byteLength_cons]; omega), bytes_singleton] at h
  exact ⟨front, c, rest, k, rfl, rfl, hk, List.mem_of_getElem? h⟩

/-- On both sides of an ASCII byte there is a character boundary. -/
theorem isBoundary_of_ascii {t : Text} {i : Nat} {b : UInt8} (h : (bytes t)[i]? = some b)
    (hb : b < 0x80) : t.IsBoundary i ∧ t.IsBoundary (i + 1) := by
  rcases exists_char_of_byte h with ⟨front, c, rest, k, rfl, rfl, hk, hmem⟩
  -- the byte is all of the character
  have hone := utf8Size_of_ascii hmem hb
  obtain rfl : k = 0 := by omega
  refine ⟨⟨front, c :: rest, rfl, rfl⟩, front ++ [c], rest, by simp, ?_⟩
  rw [byteLength_append, byteLength_cons, hone]
  rfl

/-- An ASCII character stands where its byte does. -/
theorem hasAt_iff_getElem? {t : Text} {i : Nat} {d : Char} (hd : d.val < 0x80) :
    t.HasAt i [d] ↔ (bytes t)[i]? = some d.toUInt8 := by
  constructor
  · intro h
    have hpos := d.utf8Size_pos
    have hfirst := h.getElem?_bytes (k := 0) (by rw [byteLength_cons]; omega)
    rwa [Nat.add_zero, bytes_singleton, utf8EncodeChar_of_ascii hd] at hfirst
  · intro h
    rcases exists_char_of_byte h with ⟨front, c, rest, k, rfl, rfl, hk, hmem⟩
    obtain rfl := eq_of_ascii_mem hd hmem
    have hone : c.utf8Size = 1 := Char.utf8Size_eq_one_iff.2 (Nat.le_of_lt_succ hd)
    obtain rfl : k = 0 := by omega
    exact ⟨front, rest, by simp, rfl⟩

end Text

end ClassHighlight
