import ClassHighlight.Proofs.Toml.StringForm
import ClassHighlight.Toml.Document

/-!
# Plain documents are read

What a document says whose lines have the plainest shapes: an entry under a key without quotes, a
header of one such key, and an empty line. Each of them is one step of reading, which leaves the
lines after it.
-/

namespace ClassHighlight

namespace Toml

/-! ## Keys without quotes -/

/-- Whether a text can be a key without quotes. -/
def IsBareKey (key : Text) : Prop := key ≠ [] ∧ key.all isBareKeyChar = true

instance (key : Text) : Decidable (IsBareKey key) := inferInstanceAs (Decidable (_ ∧ _))

section BareKey

variable {key : Text} {c : Char}

theorem ne_of_isBareKeyChar {d : Char} (h : isBareKeyChar c = true)
    (hd : isBareKeyChar d = false) : c ≠ d := by
  rintro rfl
  rw [h] at hd
  cases hd

theorem skipBlanks_cons (hspace : c ≠ ' ') (htab : c ≠ '\t') (t : Text) :
    skipBlanks (c :: t) = c :: t := by
  rw [skipBlanks, List.dropWhile_cons_of_neg]
  simp [hspace, htab]

/-- Nothing is passed over in front of a key. -/
theorem skipBlanks_bareKeyChar (h : isBareKeyChar c = true) (t : Text) :
    skipBlanks (c :: t) = c :: t :=
  skipBlanks_cons (ne_of_isBareKeyChar h (by decide)) (ne_of_isBareKeyChar h (by decide)) t

theorem readSimpleKey?_bare (h : IsBareKey key) (hc : isBareKeyChar c = false) (rest : Text) :
    readSimpleKey? (key ++ c :: rest) = some (key, c :: rest) := by
  obtain ⟨hne, hall⟩ := h
  have hmem : ∀ d ∈ key, isBareKeyChar d = true := List.all_eq_true.mp hall
  have htake : (key ++ c :: rest).takeWhile isBareKeyChar = key := by
    rw [List.takeWhile_append_of_pos hmem, List.takeWhile_cons_of_neg (by simp [hc]),
      List.append_nil]
  have hdrop : (key ++ c :: rest).dropWhile isBareKeyChar = c :: rest := by
    rw [List.dropWhile_append_of_pos hmem, List.dropWhile_cons_of_neg (by simp [hc])]
  have hempty : key.isEmpty = false := by simpa using hne
  cases key with
  | nil => exact absurd rfl hne
  | cons d key =>
    have hd := hmem d List.mem_cons_self
    unfold readSimpleKey?
    split
    · rename_i heq
      exact absurd (List.cons.inj heq).1 (ne_of_isBareKeyChar hd (by decide))
    · rename_i heq
      exact absurd (List.cons.inj heq).1 (ne_of_isBareKeyChar hd (by decide))
    · simp only [htake, hdrop, hempty, Bool.false_eq_true, if_false]

/-- A key without quotes is read up to what can be no part of it. -/
theorem readKey?_bare (h : IsBareKey key) (hc : isBareKeyChar c = false) {rest : Text}
    (hdot : after? '.' (skipBlanks (c :: rest)) = none) :
    readKey? (key ++ c :: rest) = some ([key], skipBlanks (c :: rest)) := by
  have hskip : skipBlanks (key ++ c :: rest) = key ++ c :: rest := by
    obtain ⟨hne, hall⟩ := h
    cases key with
    | nil => exact absurd rfl hne
    | cons d key => exact skipBlanks_bareKeyChar (List.all_eq_true.mp hall d List.mem_cons_self) _
  rw [readKey?, show depthLimit - 1 = 78 + 1 from rfl, readPath?, hskip, readSimpleKey?_bare h hc,
    Option.bind_some]
  simp only [hdot]

end BareKey

/-! ## Values at the end of a line -/

/-- A value is what a written text is read as when a line ends with it. -/
def Denotes (written : Text) (v : Value) : Prop :=
  ∀ rest, readValue? (depthLimit - 1) (skipBlanks (written ++ '\n' :: rest)) =
    some (v, '\n' :: rest)

theorem denotes_true : Denotes "true".toList (.boolean true) := fun _ => rfl

theorem denotes_false : Denotes "false".toList (.boolean false) := fun _ => rfl

/-- A written string starts with a quote of its form. -/
theorem exists_writeString_eq_cons (t : Text) :
    ∃ q u, (q = '\x22' ∨ q = '\x27') ∧ writeString t = q :: u := by
  rw [writeString]
  cases StringForm.choose t with
  | basic => exact ⟨_, _, Or.inl rfl, rfl⟩
  | literal => exact ⟨_, _, Or.inr rfl, rfl⟩
  | basicLines => exact ⟨_, _, Or.inl rfl, rfl⟩
  | literalLines => exact ⟨_, _, Or.inr rfl, rfl⟩

theorem readValue?_quote {q : Char} (hq : q = '\x22' ∨ q = '\x27') (limit : Nat) (u : Text) :
    readValue? limit (q :: u) = (readString? (q :: u)).map fun (t, last) => (.string t, last) := by
  rcases hq with rfl | rfl <;> cases limit <;> rfl

/-- A written string denotes its text. -/
theorem denotes_writeString (t : Text) : Denotes (writeString t) (.string t) := by
  intro rest
  obtain ⟨q, u, hq, hwritten⟩ := exists_writeString_eq_cons t
  have hread : readString? (writeString t ++ '\n' :: rest) = some (t, '\n' :: rest) :=
    readString?_writeString t (by simp) (by simp)
  have hskip : skipBlanks (q :: (u ++ '\n' :: rest)) = q :: (u ++ '\n' :: rest) := by
    rcases hq with rfl | rfl
    · exact skipBlanks_cons (by decide) (by decide) _
    · exact skipBlanks_cons (by decide) (by decide) _
  rw [hwritten, List.cons_append] at hread ⊢
  rw [hskip, readValue?_quote hq, hread]
  rfl

/-! ## Lines -/

section Lines

variable {d : Draft} {key written rest : Text} {v : Value}

theorem afterLine?_lineFeed (rest : Text) : afterLine? ('\n' :: rest) = some rest := rfl

/-- A line is no empty one if it starts with a key. -/
theorem afterLine?_bareKeyChar {c : Char} (h : isBareKeyChar c = true) (t : Text) :
    afterLine? (c :: t) = none := by
  have hcomment : skipComment (c :: t) = c :: t := by
    unfold skipComment
    split
    · rename_i heq
      exact absurd (List.cons.inj heq).1 (ne_of_isBareKeyChar h (by decide))
    · rfl
  have hbreak : afterLineBreak? (c :: t) = none := by
    unfold afterLineBreak?
    split
    · rename_i heq
      exact absurd (List.cons.inj heq).1 (ne_of_isBareKeyChar h (by decide))
    · rename_i heq
      exact absurd (List.cons.inj heq).1 (ne_of_isBareKeyChar h (by decide))
    · rfl
  rw [afterLine?, skipBlanks_bareKeyChar h, hcomment]
  exact hbreak

/-- A new entry is added at the end of the last table. -/
theorem Draft.add_singleton (hnew : d.entries.lookup key = none) (v : Value) :
    d.add [key] v = some { d with entries := d.entries ++ [(key, v)] } := by
  have hadd : addEntry [key] v d.entries = some (d.entries ++ [(key, v)]) := by
    simp [addEntry, descend, hnew]
  rw [Draft.add, hadd]
  rfl

/-- A line with a key, an equals sign and a value adds an entry. -/
theorem readLine?_entry (hkey : IsBareKey key) (hvalue : Denotes written v)
    (hnew : d.entries.lookup key = none) (rest : Text) :
    readLine? d (key ++ ([' ', '=', ' '] ++ (written ++ '\n' :: rest))) =
      some ({ d with entries := d.entries ++ [(key, v)] }, rest) := by
  have hread : readKey? (key ++ ([' ', '=', ' '] ++ (written ++ '\n' :: rest))) =
      some ([key], '=' :: ' ' :: (written ++ '\n' :: rest)) :=
    readKey?_bare hkey (by decide) rfl
  have hentry : readEntry? (readValue? (depthLimit - 1))
      (key ++ ([' ', '=', ' '] ++ (written ++ '\n' :: rest))) = some ([key], v, '\n' :: rest) := by
    have hskip : skipBlanks (' ' :: (written ++ '\n' :: rest)) =
        skipBlanks (written ++ '\n' :: rest) := rfl
    unfold readEntry?
    simp only [hread, after?, Option.bind_eq_bind, Option.bind_some,
      beq_self_eq_true, if_true, hskip, hvalue rest]
    rfl
  obtain ⟨hne, hall⟩ := hkey
  cases key with
  | nil => exact absurd rfl hne
  | cons c key =>
    have hc : isBareKeyChar c = true := List.all_eq_true.mp hall c List.mem_cons_self
    unfold readLine?
    split
    · rename_i heq
      exact absurd (List.cons.inj heq).1 (ne_of_isBareKeyChar hc (by decide))
    · rename_i heq
      exact absurd (List.cons.inj heq).1 (ne_of_isBareKeyChar hc (by decide))
    · rw [List.cons_append] at hentry ⊢
      rw [afterLine?_bareKeyChar hc]
      simp only [hentry, Option.bind_eq_bind, Option.bind_some, Draft.add_singleton hnew,
        afterLine?_lineFeed]
      rfl

/-- In front of the first header, a header of one new key starts its table. -/
theorem Draft.startTable_singleton {entries : Entries} (hnew : entries.lookup key = none) :
    Draft.startTable ⟨[], [], false, entries⟩ [key] = some ⟨entries, [key], false, []⟩ := by
  simp [Draft.startTable, Draft.finish, Draft.find?, hnew]

/-- A line with a header of one new key starts its table. -/
theorem readLine?_header {entries : Entries} (hkey : IsBareKey key)
    (hnew : entries.lookup key = none) (rest : Text) :
    readLine? ⟨[], [], false, entries⟩ ('[' :: (key ++ (']' :: '\n' :: rest))) =
      some (⟨entries, [key], false, []⟩, rest) := by
  have hread : readKey? (key ++ ']' :: '\n' :: rest) = some ([key], ']' :: '\n' :: rest) :=
    readKey?_bare hkey (by decide) rfl
  obtain ⟨hne, hall⟩ := hkey
  cases key with
  | nil => exact absurd rfl hne
  | cons c key =>
    have hc : isBareKeyChar c = true := List.all_eq_true.mp hall c List.mem_cons_self
    unfold readLine?
    split
    · rename_i heq
      exact absurd (List.cons.inj (List.cons.inj heq).2).1 (ne_of_isBareKeyChar hc (by decide))
    · rename_i heq
      rw [← (List.cons.inj heq).2, hread]
      simp only [Option.bind_eq_bind, Option.bind_some, Draft.startTable_singleton hnew, after?,
        beq_self_eq_true, if_true, afterLine?_lineFeed]
      rfl
    · rename_i hno
      exact absurd rfl (hno _)

/-- An empty line changes nothing. -/
theorem readLine?_lineFeed (d : Draft) (rest : Text) :
    readLine? d ('\n' :: rest) = some (d, rest) := rfl

/-! ## Documents -/

/-- Once a line is read, the lines after it are. -/
theorem readLinesInto?_of_readLine? {d' : Draft} {c : Char} {t : Text} (hspace : c ≠ ' ')
    (htab : c ≠ '\t') (h : readLine? d (c :: t) = some (d', rest)) (hlt : rest.length ≤ t.length) :
    readLinesInto? d (c :: t) = readLinesInto? d' rest := by
  have hshort : rest.length < (c :: t).length := Nat.lt_succ_of_le hlt
  rw [readLinesInto?, skipBlanks_cons hspace htab]
  simp only [List.isEmpty_cons, Bool.false_eq_true, if_false, h, if_pos hshort]

/-- At the end of the document the last table takes its place. -/
theorem readLinesInto?_nil (d : Draft) : readLinesInto? d [] = d.finish := by
  rw [readLinesInto?]
  rfl

theorem readLinesInto?_entry (hkey : IsBareKey key) (hvalue : Denotes written v)
    (hnew : d.entries.lookup key = none) (rest : Text) :
    readLinesInto? d (key ++ ([' ', '=', ' '] ++ (written ++ '\n' :: rest))) =
      readLinesInto? { d with entries := d.entries ++ [(key, v)] } rest := by
  have hline := readLine?_entry hkey hvalue hnew rest
  obtain ⟨hne, hall⟩ := hkey
  cases key with
  | nil => exact absurd rfl hne
  | cons c key =>
    have hc : isBareKeyChar c = true := List.all_eq_true.mp hall c List.mem_cons_self
    rw [List.cons_append] at hline ⊢
    refine readLinesInto?_of_readLine? (ne_of_isBareKeyChar hc (by decide))
      (ne_of_isBareKeyChar hc (by decide)) hline ?_
    simp only [List.length_append, List.length_cons]
    omega

theorem readLinesInto?_header {entries : Entries} (hkey : IsBareKey key)
    (hnew : entries.lookup key = none) (rest : Text) :
    readLinesInto? ⟨[], [], false, entries⟩ ('[' :: (key ++ (']' :: '\n' :: rest))) =
      readLinesInto? ⟨entries, [key], false, []⟩ rest := by
  refine readLinesInto?_of_readLine? (by decide) (by decide) (readLine?_header hkey hnew rest) ?_
  simp only [List.length_append, List.length_cons]
  omega

theorem readLinesInto?_lineFeed (d : Draft) (rest : Text) :
    readLinesInto? d ('\n' :: rest) = readLinesInto? d rest :=
  readLinesInto?_of_readLine? (by decide) (by decide) (readLine?_lineFeed d rest) (Nat.le_refl _)

/-- The table of a last header of one new key stands behind the entries before it. -/
theorem Draft.finish_singleton {root entries : Entries} (hnew : root.lookup key = none) :
    Draft.finish ⟨root, [key], false, entries⟩ =
      some (root ++ [(key, .table .header entries)]) := by
  simp [Draft.finish, descend, hnew]

end Lines

end Toml

end ClassHighlight
