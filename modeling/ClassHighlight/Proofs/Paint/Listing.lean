import Mathlib.Data.List.Forall2
import ClassHighlight.Paint.Listing
import ClassHighlight.Proofs.Name

/-!
# Listings read back

A quoted text has no line feed in it, whatever was quoted, and neither has the rest of a line. So
the line feeds of a listing are the ends of its lines, and there is one for each span. In front of
the quoted text stand the name of the category and the bounds, with a blank behind each and nothing
like it in between. They alone tell the spans, so the spans are read back from the listing.
-/

namespace ClassHighlight

/-! ## Characters of numerals -/

namespace Text

/-- A numeral is made of the characters for digits. -/
theorem exists_digitChar_of_mem_toDigits {base n : Nat} (hbase : 1 < base) {c : Char}
    (hc : c ∈ Nat.toDigits base n) : ∃ k, c = Nat.digitChar k := by
  induction n using Nat.strongRecOn with
  | ind n ih =>
    rw [Nat.toDigits_eq_if hbase] at hc
    split at hc
    · exact ⟨n, List.mem_singleton.1 hc⟩
    · rename_i hle
      rcases List.mem_append.1 hc with hc | hc
      · exact ih (n / base) (Nat.div_lt_self (by omega) hbase) hc
      · exact ⟨n % base, List.mem_singleton.1 hc⟩

/-- Neither blanks nor full stops nor the ends of lines are in a numeral. -/
theorem ne_of_mem_toDigits {base n : Nat} (hbase : 1 < base) {c : Char}
    (hc : c ∈ Nat.toDigits base n) : c ≠ '\n' ∧ c ≠ '\r' ∧ c ≠ ' ' ∧ c ≠ '.' := by
  obtain ⟨k, rfl⟩ := exists_digitChar_of_mem_toDigits hbase hc
  exact ⟨Nat.digitChar_ne _ rfl, Nat.digitChar_ne _ rfl, Nat.digitChar_ne _ rfl,
    Nat.digitChar_ne _ rfl⟩

/-! ## Texts on one line -/

/-- There is no line feed and no carriage return in a text. -/
def IsOneLine (t : Text) : Prop := ∀ c ∈ t, c ≠ '\n' ∧ c ≠ '\r'

instance (t : Text) : Decidable t.IsOneLine :=
  List.decidableBAll (fun c => c ≠ '\n' ∧ c ≠ '\r') t

theorem isOneLine_append {t u : Text} :
    IsOneLine (t ++ u) ↔ t.IsOneLine ∧ u.IsOneLine := List.forall_mem_append

theorem isOneLine_cons {c : Char} {t : Text} :
    IsOneLine (c :: t) ↔ (c ≠ '\n' ∧ c ≠ '\r') ∧ t.IsOneLine := List.forall_mem_cons

theorem isOneLine_toDigits {base : Nat} (hbase : 1 < base) (n : Nat) :
    IsOneLine (Nat.toDigits base n) := by
  intro c hc
  obtain ⟨hfeed, hreturn, -, -⟩ := ne_of_mem_toDigits hbase hc
  exact ⟨hfeed, hreturn⟩

theorem isOneLine_codePoint (c : Char) : IsOneLine (codePoint c) := by
  rw [codePoint, isOneLine_append, isOneLine_append]
  exact ⟨⟨by decide, isOneLine_toDigits (by decide) _⟩, by decide⟩

/-- A line feed and a carriage return are quoted by their letters. -/
theorem isOneLine_quoteChar (c : Char) : IsOneLine (quoteChar c) := by
  by_cases hfeed : c = '\n'
  · subst hfeed
    decide
  by_cases hreturn : c = '\r'
  · subst hreturn
    decide
  have hself : IsOneLine [c] := isOneLine_cons.2 ⟨⟨hfeed, hreturn⟩, by decide⟩
  have hcode := isOneLine_codePoint c
  unfold quoteChar
  repeat' split
  all_goals first | decide | assumption

/-- Whatever is quoted, it is on one line. -/
theorem isOneLine_quoted (t : Text) : IsOneLine (quoted t) := by
  rw [quoted, isOneLine_append, isOneLine_cons]
  refine ⟨⟨by decide, fun c hc => ?_⟩, by decide⟩
  obtain ⟨d, -, hc⟩ := List.mem_flatMap.1 hc
  exact isOneLine_quoteChar d c hc

end Text

/-- Neither blanks nor the ends of lines are in the name of a category. -/
theorem Category.ne_of_mem_name {c : Category} {d : Char} (hd : d ∈ c.name) :
    d ≠ '\n' ∧ d ≠ '\r' ∧ d ≠ ' ' := by
  have hname : (c.name.all fun d => d != '\n' && d != '\r' && d != ' ') = true := by
    cases c <;> decide
  simpa [and_assoc] using List.all_eq_true.1 hname d hd

/-! ## Lines -/

namespace Highlights

/-- The spans with their categories, in the order of the categories and then of each list. -/
def entries (h : Highlights) : List (Category × Span) :=
  Category.all.flatMap fun c => (h.get c).map fun s => (c, s)

/-- The line of a span without its line feed. -/
def line (text : Text) (entry : Category × Span) : Text :=
  entry.1.name ++ ' ' :: (Text.decimal entry.2.start ++ '.' :: '.' ::
    (Text.decimal entry.2.stop ++ ' ' :: Text.quoted ((entry.2.slice? text).getD [])))

theorem listSpan_eq (text : Text) (c : Category) (s : Span) :
    listSpan text c s = line text (c, s) ++ ['\n'] := by
  simp [listSpan, line, Span.render]

theorem list_eq (text : Text) (h : Highlights) :
    h.list text = (h.entries.map (line text)).flatMap (· ++ ['\n']) := by
  rw [list, entries, List.flatMap_map, List.flatMap_assoc]
  simp only [List.flatMap_map, ← listSpan_eq]

theorem isOneLine_line (text : Text) (entry : Category × Span) : (line text entry).IsOneLine := by
  have hname : entry.1.name.IsOneLine := fun d hd =>
    ⟨(Category.ne_of_mem_name hd).1, (Category.ne_of_mem_name hd).2.1⟩
  have hnumber (n : Nat) : (Text.decimal n).IsOneLine := Text.isOneLine_toDigits (by decide) n
  simp only [line, Text.isOneLine_append, Text.isOneLine_cons]
  exact ⟨hname, by decide, hnumber _, by decide, by decide, hnumber _, by decide,
    Text.isOneLine_quoted _⟩

/-- Ending each of some lines puts a line feed between any two of them and behind the last. -/
theorem flatMap_eq_intercalate (lines : List Text) :
    lines.flatMap (· ++ ['\n']) = ['\n'].intercalate (lines ++ [[]]) := by
  induction lines with
  | nil => rfl
  | cons l lines ih =>
    rw [List.flatMap_cons, List.cons_append, List.intercalate_cons_of_ne_nil (by simp), ih]

/-- The line feeds are the ends of the lines. -/
theorem splitOn_list (text : Text) (h : Highlights) :
    (h.list text).splitOn '\n' = h.entries.map (line text) ++ [[]] := by
  rw [list_eq, flatMap_eq_intercalate]
  refine List.splitOn_intercalate _ (List.forall_mem_append.2 ⟨fun l hl hfeed => ?_, ?_⟩) (by simp)
  · obtain ⟨entry, -, rfl⟩ := List.mem_map.1 hl
    exact (isOneLine_line text entry _ hfeed).1 rfl
  · exact List.forall_mem_singleton.2 List.not_mem_nil

/-! ## Reading -/

/-- The part of a text in front of a character and the part behind it. -/
def cutAt (d : Char) (t : Text) : Text × Text :=
  (t.takeWhile (· != d), (t.dropWhile (· != d)).tail)

/-- The span that a line is for, by the name of its category and its bounds. -/
def readLine? (l : Text) : Option (Category × Span) :=
  let (name, rest) := cutAt ' ' l
  let (start, rest) := cutAt '.' rest
  let (stop, _) := cutAt ' ' rest.tail
  (Category.ofName? name).map fun c =>
    (c, ⟨Nat.ofDigitChars 10 start 0, Nat.ofDigitChars 10 stop 0⟩)

/-- The spans of a listing, by their categories. -/
def readList (listing : Text) : Highlights :=
  .ofFn fun c => ((listing.splitOn '\n').filterMap readLine?).filterMap fun entry =>
    if entry.1 = c then some entry.2 else none

theorem cutAt_append {d : Char} {front : Text} (h : ∀ c ∈ front, c ≠ d) (behind : Text) :
    cutAt d (front ++ d :: behind) = (front, behind) := by
  have hfront : ∀ c ∈ front, (c != d) = true := fun c hc => bne_iff_ne.2 (h c hc)
  simp [cutAt, List.takeWhile_append_of_pos hfront, List.dropWhile_append_of_pos hfront]

/-- A line tells its span. -/
theorem readLine?_line (text : Text) (entry : Category × Span) :
    readLine? (line text entry) = some entry := by
  have hnumber (n : Nat) : ∀ c ∈ Text.decimal n, c ≠ '\n' ∧ c ≠ '\r' ∧ c ≠ ' ' ∧ c ≠ '.' :=
    fun c hc => Text.ne_of_mem_toDigits (by decide) hc
  rw [readLine?, line, cutAt_append fun d hd => (Category.ne_of_mem_name hd).2.2]
  simp only
  rw [cutAt_append fun d hd => (hnumber _ d hd).2.2.2, List.tail_cons,
    cutAt_append fun d hd => (hnumber _ d hd).2.2.1, Category.ofName?_name, Text.decimal,
    Nat.ofDigitChars_ten_toDigits, Text.decimal, Nat.ofDigitChars_ten_toDigits]
  rfl

theorem filterMap_entries (h : Highlights) (c : Category) :
    (h.entries.filterMap fun entry => if entry.1 = c then some entry.2 else none) = h.get c := by
  cases c <;> simp [entries, Category.all, List.filterMap_map]

/-- The spans are read back from their listing. -/
theorem readList_list (text : Text) (h : Highlights) : readList (h.list text) = h := by
  have hlines : ((h.list text).splitOn '\n').filterMap readLine? = h.entries := by
    have hread : readLine? ∘ line text = some := funext (readLine?_line text)
    have hend : readLine? [] = none := rfl
    rw [splitOn_list, List.filterMap_append, List.filterMap_map, hread, List.filterMap_some,
      List.filterMap_cons_none hend, List.filterMap_nil, List.append_nil]
  refine ByCategory.ext_get fun c => ?_
  rw [readList, ByCategory.get_ofFn, hlines, filterMap_entries]

theorem length_entries (h : Highlights) : h.entries.length =
    h.variant.length + h.important.length + h.arbitrary.length + h.utility.length := by
  simp [entries, Category.all, ByCategory.get, Nat.add_assoc]

/-- A line is for a span: it has no end of a line in it, and it gives the name of the category and
the bounds, and then the covered text in quotation marks, or none if the span does not fit. -/
structure IsLineOf (text : Text) (entry : Category × Span) (l : Text) : Prop where
  /-- It has no end of a line in it. -/
  oneLine : l.IsOneLine
  /-- It has a blank behind the name and behind the bounds. -/
  format : l = entry.1.name ++ ' ' ::
    (entry.2.render ++ ' ' :: Text.quoted ((entry.2.slice? text).getD []))

theorem isLineOf_line (text : Text) (entry : Category × Span) :
    IsLineOf text entry (line text entry) where
  oneLine := isOneLine_line text entry
  format := by simp [line, Span.render]

/-- A listing has one line for each span, in the order of the categories and then of each list, and
its line feeds are the ends of these lines, whatever the text is and whether or not the spans fit
it. The spans are read back from the listing, so no other highlights have the same, for any text. -/
theorem listing_exact (text : Text) (h : Highlights) :
    (∃ lines : List Text, List.Forall₂ (IsLineOf text) h.entries lines ∧
      lines.length =
        h.variant.length + h.important.length + h.arbitrary.length + h.utility.length ∧
      h.list text = lines.flatMap (· ++ ['\n']) ∧ (h.list text).splitOn '\n' = lines ++ [[]]) ∧
    readList (h.list text) = h ∧
    ∀ text' h', Highlights.list text' h' = h.list text → h' = h := by
  refine ⟨⟨h.entries.map (line text), ?_, ?_, list_eq text h, splitOn_list text h⟩,
    readList_list text h, fun text' h' hlist => ?_⟩
  · rw [List.forall₂_map_right_iff]
    exact List.forall₂_same.2 fun entry _ => isLineOf_line text entry
  · rw [List.length_map, length_entries]
  · rw [← readList_list text' h', hlist, readList_list]

/-- Another span is listed otherwise, where both are out of the text. -/
theorem listing_of_another_span :
    Highlights.list [] ⟨[⟨1, 2⟩], [], [], []⟩ ≠ Highlights.list [] ⟨[⟨1, 3⟩], [], [], []⟩ := by
  intro heq
  have hsame := (listing_exact [] ⟨[⟨1, 3⟩], [], [], []⟩).2.2 [] ⟨[⟨1, 2⟩], [], [], []⟩ heq
  exact absurd hsame (by decide)

end Highlights

end ClassHighlight
