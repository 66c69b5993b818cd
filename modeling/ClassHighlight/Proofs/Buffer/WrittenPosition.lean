import ClassHighlight.Buffer.WrittenPosition
import ClassHighlight.Proofs.Text.Decimal
import ClassHighlight.Proofs.Text.Trim

/-!
# Written positions

A text is a position if, between the blanks at its two ends, it is two numerals with a colon between
them, of numbers from one up that fit into 64 bits. No numeral holds a colon, so it makes no
difference that the text is divided at its first one. What is read can always be written, for the
two numbers have just been there, and what can be written is read back.
-/

namespace ClassHighlight

/-! ## Dividing a text -/

namespace Text

variable {d : Char} {t front behind : Text}

/-- A text is divided where a character stands that does not stand in front of that place. -/
theorem splitOnce?_eq_some_iff :
    t.splitOnce? d = some (front, behind) ↔ t = front ++ d :: behind ∧ d ∉ front := by
  induction t generalizing front with
  | nil => simp [splitOnce?]
  | cons c rest ih =>
    rw [splitOnce?]
    by_cases hc : c = d
    · subst hc
      rw [if_pos (beq_self_eq_true c)]
      constructor
      · intro h
        cases h
        exact ⟨rfl, List.not_mem_nil⟩
      · rintro ⟨hsplit, hnot⟩
        cases front with
        | nil =>
          obtain ⟨-, rfl⟩ := List.cons.inj hsplit
          rfl
        | cons e front =>
          obtain ⟨rfl, -⟩ := List.cons.inj hsplit
          exact absurd List.mem_cons_self hnot
    · rw [if_neg (by simpa using hc)]
      constructor
      · intro h
        obtain ⟨⟨first, behind'⟩, hrest, heq⟩ := Option.map_eq_some_iff.1 h
        obtain ⟨rfl, rfl⟩ : c :: first = front ∧ behind' = behind := by simpa using heq
        obtain ⟨rfl, hnot⟩ := ih.1 hrest
        refine ⟨rfl, ?_⟩
        rw [List.mem_cons, not_or]
        exact ⟨fun heq => hc heq.symm, hnot⟩
      · rintro ⟨hsplit, hnot⟩
        cases front with
        | nil => exact absurd (List.cons.inj hsplit).1 hc
        | cons e front =>
          obtain ⟨rfl, hrest⟩ := List.cons.inj hsplit
          have hdivided := ih.2 ⟨hrest, fun hin => hnot (List.mem_cons_of_mem _ hin)⟩
          exact Option.map_eq_some_iff.2 ⟨_, hdivided, rfl⟩

/-- Dividing a text is taking what stands in front of the first such character. -/
theorem splitOnce?_eq (d : Char) (t : Text) : t.splitOnce? d =
    match t.dropWhile (· != d) with
    | _ :: behind => some (t.takeWhile (· != d), behind)
    | [] => none := by
  induction t with
  | nil => rfl
  | cons c rest ih =>
    rw [splitOnce?, ih]
    by_cases hc : c = d
    · simp [hc]
    · simp only [beq_iff_eq, bne_iff_ne, ne_eq, hc, not_false_eq_true, if_false,
        List.dropWhile_cons_of_pos, List.takeWhile_cons_of_pos]
      cases rest.dropWhile (· != d) <;> rfl

end Text

namespace Position

variable {t line column : Text} {p : Position}

/-! ## Written forms -/

/-- A text is a written form of a position: between blanks, a numeral of its line and one of its
column, both counted from one within 64 bits, with a colon between them. -/
structure IsWritten (t : Text) (p : Position) : Prop where
  /-- All but the blanks at its ends are the two numerals and the colon. -/
  parts : ∃ line column : Text, t.IsTrimmed (line ++ ':' :: column) ∧
    line.IsNumeral (p.line + 1) ∧ column.IsNumeral (p.column + 1)
  /-- The line fits. -/
  line_le : p.line + 1 ≤ maxNat64
  /-- The column fits. -/
  column_le : p.column + 1 ≤ maxNat64

/-! ## Reading -/

theorem readCounted?_eq_some_iff {n : Nat} :
    readCounted? t = some n ↔ t.IsNumeral (n + 1) ∧ n + 1 ≤ maxNat64 := by
  rw [← Text.readNat64?_eq_some_iff, readCounted?]
  split <;> simp_all

/-- What is read from the two parts of a text. -/
def ofParts? (line column : Text) : Option Position :=
  (readCounted? line).bind fun l => (readCounted? column).map fun c => ⟨l, c⟩

theorem ofParts?_eq_some_iff : ofParts? line column = some p ↔
    (line.IsNumeral (p.line + 1) ∧ p.line + 1 ≤ maxNat64) ∧
      column.IsNumeral (p.column + 1) ∧ p.column + 1 ≤ maxNat64 := by
  rw [← readCounted?_eq_some_iff, ← readCounted?_eq_some_iff, ofParts?]
  cases p
  cases readCounted? line <;> cases readCounted? column <;> simp

/-- What is read from a text, if anything is. -/
def found? (t : Text) : Option Position :=
  (t.trim.splitOnce? ':').bind fun parts => ofParts? parts.1 parts.2

/-- The numerals are not looked for where the blanks are, nor across a colon. -/
theorem found?_eq_some_iff : found? t = some p ↔ IsWritten t p := by
  rw [found?, Option.bind_eq_some_iff]
  constructor
  · rintro ⟨⟨line, column⟩, hsplit, hparts⟩
    obtain ⟨htrim, -⟩ := Text.splitOnce?_eq_some_iff.1 hsplit
    obtain ⟨⟨hline, hlineFits⟩, hcolumn, hcolumnFits⟩ := ofParts?_eq_some_iff.1 hparts
    exact ⟨⟨line, column, Text.isTrimmed_iff.2 htrim.symm, hline, hcolumn⟩, hlineFits, hcolumnFits⟩
  · rintro ⟨⟨line, column, htrim, hline, hcolumn⟩, hlineFits, hcolumnFits⟩
    refine ⟨(line, column), ?_, ofParts?_eq_some_iff.2 ⟨⟨hline, hlineFits⟩, hcolumn, hcolumnFits⟩⟩
    -- there is no colon in the numeral of the line
    rw [Text.splitOnce?_eq_some_iff]
    exact ⟨(Text.isTrimmed_iff.1 htrim).symm, fun hin => (hline.not_blank_nor_colon ':' hin).2 rfl⟩

theorem parse_eq (t : Text) : parse t =
    match found? t with
    | some p => .ok p
    | none => .error (.invalid t) := by
  rw [found?, Text.splitOnce?_eq, parse]
  cases t.trim.dropWhile (· != ':') with
  | nil => rfl
  | cons c column =>
    simp only [Option.bind_some, ofParts?]
    cases readCounted? (t.trim.takeWhile (· != ':')) <;> cases readCounted? column <;> rfl

/-- The written forms of positions are read, and nothing else is. -/
theorem parse_eq_ok_iff : parse t = .ok p ↔ IsWritten t p := by
  rw [← found?_eq_some_iff, parse_eq]
  split <;> simp_all

/-- A text that is refused is told as it was given. -/
theorem parse_eq_error_iff {e : ParseError} :
    parse t = .error e ↔ e = .invalid t ∧ ¬ ∃ p, IsWritten t p := by
  simp only [← parse_eq_ok_iff]
  rw [parse_eq]
  split <;> simp [eq_comm]

/-! ## Reading within 64 bits -/

theorem run_ofParts (written line column : Text) : (Reading.ofParts written line column).run =
    match ofParts? line column with
    | some p => some (.ok p)
    | none => some (.error (.invalid written)) := by
  unfold Reading.ofParts Reading.number ofParts? readCounted?
  rw [Nat64.read?_eq, Nat64.read?_eq]
  rcases line.readNat64? with _ | _ | l <;> rcases column.readNat64? with _ | _ | c <;> rfl

/-- No difference fails, for the zeros are found before it comes to them. -/
theorem read?_eq (t : Text) : read? t = some (parse t) := by
  rw [read?, Reading.ofWritten, parse_eq, found?]
  cases t.trim.splitOnce? ':' with
  | none => rfl
  | some parts =>
    rw [Option.bind_some, run_ofParts]
    cases ofParts? parts.1 parts.2 <;> rfl

/-! ## Writing -/

/-- A position is written if its numbers can be counted from one within 64 bits. -/
theorem write?_eq_some_iff :
    p.write? = some t ↔ t = p.render ∧ p.line < maxNat64 ∧ p.column < maxNat64 := by
  have hone : ∀ n, Nat64.add? n 1 = if n < maxNat64 then some (n + 1) else none := fun _ => rfl
  rw [write?, hone, hone]
  by_cases hline : p.line < maxNat64 <;> by_cases hcolumn : p.column < maxNat64 <;>
    simp [hline, hcolumn, render, eq_comm]

/-- What is written is a written form if it fits. -/
theorem isWritten_render (hline : p.line < maxNat64) (hcolumn : p.column < maxNat64) :
    IsWritten p.render p := by
  have hnumeral := Text.isNumeral_decimal
  refine ⟨⟨_, _, Text.isTrimmed_iff.2 (Text.trim_eq_self_of_forall ?_).symm, hnumeral _, hnumeral _⟩,
    hline, hcolumn⟩
  intro c hc
  rcases List.mem_append.1 hc with hin | hin
  · exact ((hnumeral _).not_blank_nor_colon c hin).1
  · rcases List.mem_cons.1 hin with rfl | hin
    · decide
    · exact ((hnumeral _).not_blank_nor_colon c hin).1

/-- A position is read back from what is written for it, as far as that fits. -/
theorem parse_render_iff : parse p.render = .ok p ↔ p.line < maxNat64 ∧ p.column < maxNat64 := by
  rw [parse_eq_ok_iff]
  exact ⟨fun h => ⟨h.line_le, h.column_le⟩, fun h => isWritten_render h.1 h.2⟩

/-! ## Texts and positions -/

/-- A position is written exactly if both of its numbers can be counted from one within 64 bits, and
exactly then it is read back. A text is read exactly if it is a written form, and no difference
fails on the way; any other text is refused and told as it was given. What was read can be written,
and is read back again. The numerals in a written form are the decimal digits of their numbers, with
any number of zeros and at most one plus sign in front. -/
theorem written_exact :
    (∀ (p : Position) (t : Text),
      p.write? = some t ↔ t = p.render ∧ p.line < maxNat64 ∧ p.column < maxNat64) ∧
    (∀ p : Position, parse p.render = .ok p ↔ p.line < maxNat64 ∧ p.column < maxNat64) ∧
    (∀ t : Text, read? t = some (parse t) ∧
      (∀ p, parse t = .ok p ↔ IsWritten t p) ∧
      (∀ e, parse t = .error e ↔ e = .invalid t ∧ ¬ ∃ p, IsWritten t p) ∧
      ∀ p, parse t = .ok p → p.write? = some p.render ∧ parse p.render = .ok p) ∧
    ∀ (t : Text) (n : Nat), t.IsNumeral n ↔ ∃ k, t = List.replicate k '0' ++ Text.decimal n ∨
      t = '+' :: (List.replicate k '0' ++ Text.decimal n) := by
  refine ⟨fun p t => write?_eq_some_iff, fun p => parse_render_iff,
    fun t => ⟨read?_eq t, fun p => parse_eq_ok_iff, fun e => parse_eq_error_iff, fun p h => ?_⟩,
    fun t n => Text.isNumeral_iff⟩
  -- the numbers that were read are one larger than those of the position
  have hwritten := parse_eq_ok_iff.1 h
  have hfits : p.line < maxNat64 ∧ p.column < maxNat64 := ⟨hwritten.line_le, hwritten.column_le⟩
  exact ⟨write?_eq_some_iff.2 ⟨rfl, hfits⟩, parse_render_iff.2 hfits⟩

/-- The largest column that can be written, with zeros, a sign and blanks; one more does not fit, and
there is no line zero. -/
theorem written_exact_largest_column :
    parse "\u2003+007:0018446744073709551615\t".toList = .ok ⟨6, 0xFFFFFFFFFFFFFFFE⟩ ∧
      write? ⟨6, 0xFFFFFFFFFFFFFFFE⟩ = some "7:18446744073709551615".toList ∧
      parse "7:18446744073709551615".toList = .ok ⟨6, 0xFFFFFFFFFFFFFFFE⟩ ∧
      write? ⟨6, 0xFFFFFFFFFFFFFFFF⟩ = none ∧
      (¬ ∃ p, IsWritten "7:18446744073709551616".toList p) ∧
      ¬ ∃ p, IsWritten " 0:1".toList p := by
  obtain ⟨hwrite, -, hread, -⟩ := written_exact
  have hparse : parse "\u2003+007:0018446744073709551615\t".toList =
      .ok ⟨6, 0xFFFFFFFFFFFFFFFE⟩ := by
    decide +kernel
  have hrender : render ⟨6, 0xFFFFFFFFFFFFFFFE⟩ = "7:18446744073709551615".toList := by
    decide +kernel
  have hlarge : parse "7:18446744073709551616".toList =
      .error (.invalid "7:18446744073709551616".toList) := by
    decide +kernel
  have hzero : parse " 0:1".toList = .error (.invalid " 0:1".toList) := by
    decide +kernel
  obtain ⟨hwritten, hback⟩ := (hread _).2.2.2 _ hparse
  rw [hrender] at hwritten hback
  refine ⟨hparse, hwritten, hback, ?_, ?_, ?_⟩
  · rw [Option.eq_none_iff_forall_ne_some]
    intro t ht
    exact absurd ((hwrite _ t).1 ht).2.2 (Nat.lt_irrefl _)
  · exact (((hread _).2.2.1 _).1 hlarge).2
  · exact (((hread _).2.2.1 _).1 hzero).2

end Position

end ClassHighlight
