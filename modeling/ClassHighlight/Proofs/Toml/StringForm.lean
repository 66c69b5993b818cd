import ClassHighlight.Toml.StringForm

/-!
# Written strings are read back

Each of the four forms of a string is read as the text that was written, whatever follows it. In the
forms for several lines a mark may stand unescaped, also in front of the three that close the
string; `IsBody` says which bodies stand for which texts, and that no three unescaped marks are in a
row in a body is what tells it from its end.
-/

namespace ClassHighlight

namespace Toml

/-! ## Escapes -/

/-- A control has a code of one byte. -/
theorem toNat_lt_of_isControl {c : Char} (h : isControl c = true) : c.toNat < 256 := by
  simp only [isControl, Bool.or_eq_true, Bool.and_eq_true, decide_eq_true_eq, beq_iff_eq] at h
  rcases h with ⟨⟨h, -⟩, -⟩ | rfl
  · omega
  · decide

/-- A control is read back from the digits of its code. -/
theorem readCodePoint?_hexByte {c : Char} (h : c.toNat < 256) (rest : Text) :
    readCodePoint? 4 (['0', '0'] ++ Text.hexByte c.toUInt8 ++ rest) = some (c, rest) := by
  have hbyte : c.toUInt8.toNat = c.toNat := Nat.mod_eq_of_lt h
  have hzero : Text.hexValue? '0' = some 0 := by decide
  have hhigh : Text.hexValue? (Text.hexDigit (c.toNat / 16)) = some (c.toNat / 16) :=
    Text.hexValue?_hexDigit _ (by omega)
  have hlow : Text.hexValue? (Text.hexDigit (c.toNat % 16)) = some (c.toNat % 16) :=
    Text.hexValue?_hexDigit _ (by omega)
  have hdigits : (['0', '0'] ++ Text.hexByte c.toUInt8).mapM Text.hexValue? =
      some [0, 0, c.toNat / 16, c.toNat % 16] := by
    simp [Text.hexByte, hbyte, hzero, hhigh, hlow]
  have hcode : Text.ofDigitValues 16 [0, 0, c.toNat / 16, c.toNat % 16] = c.toNat := by
    simp only [Text.ofDigitValues, List.foldl_cons, List.foldl_nil]
    omega
  have htake : (['0', '0'] ++ Text.hexByte c.toUInt8 ++ rest).take 4 =
      ['0', '0'] ++ Text.hexByte c.toUInt8 := rfl
  rw [readCodePoint?, htake, hdigits, Option.bind_some, hcode]
  have hvalid : c.toNat.isValidChar := c.valid
  simp [hvalid, Text.hexByte]

/-- A character between quotation marks is written as an escape that is read back, or it stands for
itself; a line feed does so on several lines. -/
theorem escapeChar_cases (lines : Bool) (c : Char) :
    (∃ code, escapeChar lines c = '\\' :: code ∧
      ∀ rest, readEscape? (code ++ rest) = some (c, rest)) ∨
    (escapeChar lines c = [c] ∧ isInline c = true ∧ c ≠ '\\') ∨
    (lines = true ∧ c = '\n' ∧ escapeChar lines c = ['\n']) := by
  by_cases hspecial : c ∈ ['\x08', '\t', '\x0c', '\r', '\\']
  · left
    simp only [List.mem_cons, List.not_mem_nil, or_false] at hspecial
    rcases hspecial with rfl | rfl | rfl | rfl | rfl
    · exact ⟨['b'], rfl, fun _ => rfl⟩
    · exact ⟨['t'], rfl, fun _ => rfl⟩
    · exact ⟨['f'], rfl, fun _ => rfl⟩
    · exact ⟨['r'], rfl, fun _ => rfl⟩
    · exact ⟨['\\'], rfl, fun _ => rfl⟩
  by_cases hfeed : c = '\n'
  · subst hfeed
    cases lines with
    | false => exact Or.inl ⟨['n'], rfl, fun _ => rfl⟩
    | true => exact Or.inr (Or.inr ⟨rfl, rfl, rfl⟩)
  -- only controls are left that are written by their codes
  have hescape : escapeChar lines c =
      if isControl c then ['\\', 'u', '0', '0'] ++ Text.hexByte c.toUInt8 else [c] := by
    simp only [List.mem_cons, List.not_mem_nil, or_false, not_or] at hspecial
    simp only [escapeChar, beq_iff_eq, hspecial, hfeed, if_false]
  rw [hescape]
  cases hcontrol : isControl c with
  | true =>
    refine Or.inl ⟨'u' :: (['0', '0'] ++ Text.hexByte c.toUInt8), rfl, fun rest => ?_⟩
    exact readCodePoint?_hexByte (toNat_lt_of_isControl hcontrol) rest
  | false =>
    refine Or.inr (Or.inl ⟨rfl, ?_, ?_⟩)
    · simp only [isInline, hcontrol, Bool.not_false, Bool.true_and, bne_iff_ne, ne_eq, hfeed,
        not_false_iff]
    · rintro rfl
      exact hspecial (by decide)

/-! ## Strings on one line -/

theorem readBasic?_escaped {code after : Text} {c : Char} (h : readEscape? code = some (c, after)) :
    readBasic? ('\\' :: code) = (readBasic? after).map fun (t, last) => (c :: t, last) := by
  rw [readBasic?, if_neg (by decide), if_pos (by decide)]
  split
  · rename_i heq
    rw [h] at heq
    cases heq
    rfl
  · rename_i hnone
    rw [h] at hnone
    cases hnone

theorem readBasic?_inline {c : Char} (hquote : c ≠ '\x22') (hslash : c ≠ '\\')
    (hinline : isInline c = true) (rest : Text) :
    readBasic? (c :: rest) = (readBasic? rest).map fun (t, last) => (c :: t, last) := by
  rw [readBasic?]
  simp [hquote, hslash, hinline]

/-- What is escaped for one line is read back. -/
theorem readBasic?_escape (t rest : Text) :
    readBasic? (escape false 0 t ++ '\x22' :: rest) = some (t, rest) := by
  induction t with
  | nil =>
    rw [escape, List.nil_append, readBasic?]
    simp
  | cons c t ih =>
    by_cases hquote : c = '\x22'
    · subst hquote
      have hescape : readEscape? ('\x22' :: (escape false 0 t ++ '\x22' :: rest)) =
          some ('\x22', escape false 0 t ++ '\x22' :: rest) := rfl
      have hwritten : escape false 0 ('\x22' :: t) = '\\' :: '\x22' :: escape false 0 t := rfl
      rw [hwritten, List.cons_append, List.cons_append, readBasic?_escaped hescape, ih]
      rfl
    · have hwritten : escape false 0 (c :: t) = escapeChar false c ++ escape false 0 t := by
        rw [escape, if_neg (by simpa using hquote)]
      rw [hwritten, List.append_assoc]
      rcases escapeChar_cases false c with ⟨code, hcode, hread⟩ | ⟨hplain, hinline, hslash⟩ | hlines
      · rw [hcode, List.cons_append, readBasic?_escaped (hread _), ih]
        rfl
      · rw [hplain, List.singleton_append, readBasic?_inline hquote hslash hinline, ih]
        rfl
      · cases hlines.1

/-- Between apostrophes everything stands for itself. -/
theorem readLiteral?_append {t : Text} (hquote : '\x27' ∉ t) (hinline : ∀ c ∈ t, isInline c = true)
    (rest : Text) : readLiteral? (t ++ '\x27' :: rest) = some (t, rest) := by
  induction t with
  | nil => rfl
  | cons c t ih =>
    rw [List.mem_cons, not_or] at hquote
    rw [List.forall_mem_cons] at hinline
    rw [List.cons_append, readLiteral?, if_neg (by simpa using Ne.symm hquote.1), if_pos hinline.1,
      ih hquote.2 hinline.2]
    rfl

/-! ## Strings on several lines -/

/-- A body of a string on several lines stands for a text, when so many unescaped marks stand before
it. -/
inductive IsBody (q : Char) (escapes : Bool) : (marks : Nat) → (body t : Text) → Prop
  /-- Nothing is left. -/
  | nil {marks : Nat} : IsBody q escapes marks [] []
  /-- A mark that is not the third in a row. -/
  | mark {marks : Nat} {body t : Text} (hmarks : marks < 2)
      (h : IsBody q escapes (marks + 1) body t) : IsBody q escapes marks (q :: body) (q :: t)
  /-- Another character that stands for itself. -/
  | plain {marks : Nat} {c : Char} {body t : Text} (hmark : c ≠ q)
      (hslash : escapes = true → c ≠ '\\') (hinline : isInline c = true)
      (h : IsBody q escapes 0 body t) : IsBody q escapes marks (c :: body) (c :: t)
  /-- A line feed. -/
  | lineFeed {marks : Nat} {body t : Text} (h : IsBody q escapes 0 body t) :
      IsBody q escapes marks ('\n' :: body) ('\n' :: t)
  /-- An escape. -/
  | escaped {marks : Nat} {code : Text} {c : Char} {body t : Text} (hescapes : escapes = true)
      (hread : ∀ rest, readEscape? (code ++ rest) = some (c, rest))
      (h : IsBody q escapes 0 body t) : IsBody q escapes marks ('\\' :: (code ++ body)) (c :: t)

/-- What is escaped for several lines is a body. -/
theorem isBody_escape (marks : Nat) (t : Text) :
    IsBody '\x22' true marks (escape true marks t) t := by
  induction t generalizing marks with
  | nil => exact .nil
  | cons c t ih =>
    by_cases hquote : c = '\x22'
    · subst hquote
      by_cases hmarks : marks < 2
      · have hwritten : escape true marks ('\x22' :: t) = '\x22' :: escape true (marks + 1) t :=
          if_pos hmarks
        rw [hwritten]
        exact .mark hmarks (ih _)
      · have hwritten : escape true marks ('\x22' :: t) = '\\' :: '\x22' :: escape true 0 t :=
          if_neg hmarks
        have hread (rest : Text) : readEscape? (['\x22'] ++ rest) = some ('\x22', rest) := rfl
        rw [hwritten]
        exact .escaped rfl hread (ih 0)
    · rw [escape, if_neg (by simpa using hquote)]
      rcases escapeChar_cases true c with
        ⟨code, hcode, hread⟩ | ⟨hplain, hinline, hslash⟩ | ⟨-, rfl, hfeed⟩
      · rw [hcode]
        exact .escaped rfl hread (ih 0)
      · rw [hplain]
        exact .plain hquote (fun _ => hslash) hinline (ih 0)
      · rw [hfeed]
        exact .lineFeed (ih 0)

theorem le_longestRunFrom (q : Char) (current longest : Nat) (t : Text) :
    longest ≤ longestRunFrom q current longest t := by
  induction t generalizing current longest with
  | nil => exact Nat.le_refl _
  | cons c t ih =>
    rw [longestRunFrom]
    split
    · exact Nat.le_trans (Nat.le_max_left _ _) (ih _ _)
    · exact ih _ _

/-- Without escapes, a text is its own body if it has no controls and no three marks in a row. -/
theorem isBody_self {q : Char} {t : Text} (hcontrol : ∀ c ∈ t, isControl c = false)
    {marks longest : Nat} (hrun : longestRunFrom q marks longest t ≤ 2) :
    IsBody q false marks t t := by
  induction t generalizing marks longest with
  | nil => exact .nil
  | cons c t ih =>
    rw [List.forall_mem_cons] at hcontrol
    rw [longestRunFrom] at hrun
    split at hrun
    · rename_i hmark
      cases eq_of_beq hmark
      have hmarks := le_longestRunFrom q (marks + 1) (max longest (marks + 1)) t
      exact .mark (by omega) (ih hcontrol.2 hrun)
    · rename_i hmark
      by_cases hfeed : c = '\n'
      · subst hfeed
        exact .lineFeed (ih hcontrol.2 hrun)
      · refine .plain (by simpa using hmark) nofun ?_ (ih hcontrol.2 hrun)
        simp only [isInline, hcontrol.1, Bool.not_false, Bool.true_and, bne_iff_ne, ne_eq, hfeed,
          not_false_iff]

section Run

variable {q : Char} {escapes : Bool} {marks : Nat} {body t : Text}

/-- A body has only marks, and these are its text, or fewer than three at its start. -/
theorem IsBody.marks_cases (h : IsBody q escapes marks body t) (hmarks : marks ≤ 2)
    (hslash : q ≠ '\\') (hfeed : q ≠ '\n') (after : Text) :
    (∃ n, marks + n ≤ 2 ∧ body = List.replicate n q ∧ t = List.replicate n q) ∨
      marks + ((body ++ after).takeWhile (· == q)).length ≤ 2 := by
  -- a character that is no mark ends the run at once
  have hends {marks : Nat} (hmarks : marks ≤ 2) {c : Char} {body : Text} (hc : c ≠ q) :
      marks + ((c :: body ++ after).takeWhile (· == q)).length ≤ 2 := by
    rw [List.cons_append, List.takeWhile_cons_of_neg (by simpa using hc)]
    exact hmarks
  induction h with
  | nil => exact Or.inl ⟨0, hmarks, rfl, rfl⟩
  | mark hlt _ ih =>
    rcases ih hlt with ⟨n, hn, rfl, rfl⟩ | hrun
    · exact Or.inl ⟨n + 1, by omega, rfl, rfl⟩
    · right
      rw [List.cons_append, List.takeWhile_cons_of_pos (by simp), List.length_cons]
      omega
  | plain hmark _ _ _ _ => exact Or.inr (hends hmarks hmark)
  | lineFeed _ _ => exact Or.inr (hends hmarks hfeed.symm)
  | escaped _ _ _ _ => exact Or.inr (hends hmarks hslash.symm)

/-- Where fewer than three marks stand, a string does not end. -/
theorem closeTriple?_eq_none {u : Text} (h : (u.takeWhile (· == q)).length ≤ 2) :
    closeTriple? q u = none := by
  rw [closeTriple?, if_pos (by omega)]

/-- Up to two marks in front of the closing three belong to the string. -/
theorem closeTriple?_replicate {n : Nat} (hn : n ≤ 2) {rest : Text} (hrest : rest.head? ≠ some q) :
    closeTriple? q (List.replicate n q ++ (triple q ++ rest)) = some (n, rest) := by
  have hwhole : List.replicate n q ++ (triple q ++ rest) = List.replicate (n + 3) q ++ rest := by
    rw [← List.replicate_append_replicate, List.append_assoc]
    rfl
  have hstop : rest.takeWhile (· == q) = [] := by
    cases rest with
    | nil => rfl
    | cons c rest =>
      refine List.takeWhile_cons_of_neg ?_
      simpa using hrest
  have hrun : ((List.replicate (n + 3) q ++ rest).takeWhile (· == q)).length = n + 3 := by
    rw [List.takeWhile_append_of_pos (by simp), hstop]
    simp
  rw [hwhole, closeTriple?, hrun]
  have hmin : min (n + 3 - 3) 2 = n := by omega
  have hdrop : 3 + n = (List.replicate (n + 3) q).length := by simp; omega
  simp only [hmin, hdrop, List.drop_left]
  simp

theorem readLines?_lineFeed (hclose : closeTriple? q ('\n' :: t) = none) :
    readLines? q escapes ('\n' :: t) =
      (readLines? q escapes t).map fun (t, last) => ('\n' :: t, last) := by
  rw [readLines?]
  split
  · rename_i heq
    rw [hclose] at heq
    cases heq
  · split
    · rename_i hbreak
      cases hbreak
      rfl
    · rename_i hbreak
      cases hbreak

theorem readLines?_escaped {code after : Text} {c : Char}
    (hclose : closeTriple? q ('\\' :: code) = none) (hread : readEscape? code = some (c, after)) :
    readLines? q true ('\\' :: code) =
      (readLines? q true after).map fun (t, last) => (c :: t, last) := by
  rw [readLines?]
  split
  · rename_i heq
    rw [hclose] at heq
    cases heq
  · split
    · rename_i hbreak
      cases hbreak
    · simp only [Bool.true_and, beq_self_eq_true, if_true]
      split
      · rename_i heq
        rw [hread] at heq
        cases heq
        rfl
      · rename_i heq
        rw [hread] at heq
        cases heq

/-- A character that stands for itself starts no line break. -/
theorem afterLineBreak?_of_isInline {c : Char} (h : isInline c = true) (t : Text) :
    afterLineBreak? (c :: t) = none := by
  unfold afterLineBreak?
  split
  · rename_i heq
    cases heq
    cases h
  · rename_i heq
    cases heq
    cases h
  · rfl

theorem readLines?_inline {c : Char} (hclose : closeTriple? q (c :: t) = none)
    (hslash : escapes = true → c ≠ '\\') (hinline : isInline c = true) :
    readLines? q escapes (c :: t) =
      (readLines? q escapes t).map fun (t, last) => (c :: t, last) := by
  have hescape : ¬ (escapes && c == '\\') = true := by
    simpa using hslash
  rw [readLines?]
  split
  · rename_i heq
    rw [hclose] at heq
    cases heq
  · split
    · rename_i hbreak
      rw [afterLineBreak?_of_isInline hinline] at hbreak
      cases hbreak
    · simp only [if_neg hescape, if_pos hinline]

variable {rest : Text}

/-- A body is read as the text that it stands for if this is so where the string does not end yet.
-/
theorem IsBody.readLines?_of_open (h : IsBody q escapes marks body t) (hmarks : marks ≤ 2)
    (hslash : q ≠ '\\') (hfeed : q ≠ '\n') (hrest : rest.head? ≠ some q)
    (hopen : closeTriple? q (body ++ (triple q ++ rest)) = none →
      readLines? q escapes (body ++ (triple q ++ rest)) = some (t, rest)) :
    readLines? q escapes (body ++ (triple q ++ rest)) = some (t, rest) := by
  rcases h.marks_cases hmarks hslash hfeed (triple q ++ rest) with ⟨n, hn, rfl, rfl⟩ | hrun
  · have hclose := closeTriple?_replicate (show n ≤ 2 by omega) hrest
    rw [Toml.readLines?]
    split
    · rename_i heq
      rw [hclose] at heq
      cases heq
      rfl
    · rename_i heq
      rw [hclose] at heq
      cases heq
  · exact hopen (closeTriple?_eq_none (by omega))

/-- A body is read as the text that it stands for, up to the marks that close it. -/
theorem IsBody.readLines?_append (h : IsBody q escapes marks body t) (hmarks : marks ≤ 2)
    (hslash : q ≠ '\\') (hinline : isInline q = true) (hrest : rest.head? ≠ some q) :
    readLines? q escapes (body ++ (triple q ++ rest)) = some (t, rest) := by
  have hfeed : q ≠ '\n' := by
    rintro rfl
    cases hinline
  induction h with
  | nil =>
    refine IsBody.nil.readLines?_of_open hmarks hslash hfeed hrest fun hclose => ?_
    have hends := closeTriple?_replicate (n := 0) (by omega) hrest
    rw [List.replicate_zero, hclose] at hends
    cases hends
  | mark hlt h ih =>
    refine (IsBody.mark hlt h).readLines?_of_open hmarks hslash hfeed hrest fun hclose => ?_
    rw [List.cons_append] at hclose ⊢
    rw [readLines?_inline hclose (fun _ => hslash) hinline, ih hlt]
    rfl
  | plain hmark hslash' hinline' h ih =>
    refine (h.plain hmark hslash' hinline').readLines?_of_open hmarks hslash hfeed hrest
      fun hclose => ?_
    rw [List.cons_append] at hclose ⊢
    rw [readLines?_inline hclose hslash' hinline', ih (by omega)]
    rfl
  | lineFeed h ih =>
    refine h.lineFeed.readLines?_of_open hmarks hslash hfeed hrest fun hclose => ?_
    rw [List.cons_append] at hclose ⊢
    rw [readLines?_lineFeed hclose, ih (by omega)]
    rfl
  | escaped hescapes hread h ih =>
    refine (h.escaped hescapes hread).readLines?_of_open hmarks hslash hfeed hrest
      fun hclose => ?_
    subst hescapes
    rw [List.cons_append, List.append_assoc] at hclose ⊢
    rw [readLines?_escaped hclose (hread _), ih (by omega)]
    rfl

end Run

/-! ## The four forms -/

/-- Whether a form can hold a text. Between quotation marks an escape stands for what cannot stand
for itself. -/
def StringForm.Fits : StringForm → Text → Prop
  | .basic, _ => True
  | .literal, t => '\x27' ∉ t ∧ ∀ c ∈ t, isInline c = true
  | .basicLines, _ => True
  | .literalLines, t => (∀ c ∈ t, isControl c = false) ∧ longestRun '\x27' t ≤ 2

theorem longestRunFrom_pos {q : Char} {t : Text} (h : q ∈ t) (current longest : Nat) :
    0 < longestRunFrom q current longest t := by
  induction t generalizing current longest with
  | nil => cases h
  | cons c t ih =>
    rw [longestRunFrom]
    split
    · have := le_longestRunFrom q (current + 1) (max longest (current + 1)) t
      omega
    · rename_i hmark
      refine ih ((List.mem_cons.mp h).resolve_left ?_) _ _
      rintro rfl
      exact hmark (beq_self_eq_true _)

/-- The form in which a text is written can hold it. -/
theorem StringForm.fits_choose (t : Text) : (StringForm.choose t).Fits t := by
  have hcontrols (h : t.any isControl = false) : ∀ c ∈ t, isControl c = false := by
    simpa using h
  simp only [StringForm.choose, Bool.and_eq_true, Bool.not_eq_true', beq_iff_eq,
    decide_eq_true_eq]
  split
  · trivial
  split
  · rename_i hliteral
    obtain ⟨⟨hcontrol, hrun⟩, hfeed⟩ := hliteral
    constructor
    · intro hmem
      have := longestRunFrom_pos hmem 0 0
      rw [longestRun] at hrun
      omega
    · intro c hc
      have hne : c ≠ '\n' := by
        rintro rfl
        simp [hc] at hfeed
      simp only [isInline, hcontrols hcontrol c hc, Bool.not_false, Bool.true_and, bne_iff_ne,
        ne_eq, hne, not_false_iff]
  split
  · trivial
  split
  · rename_i hliteralLines
    exact ⟨hcontrols hliteralLines.1, hliteralLines.2⟩
  split <;> trivial

/-- A quotation mark starts a string on one line unless two more follow it. -/
theorem readString?_basic {u : Text} (h : ∀ more, u ≠ '\x22' :: '\x22' :: more) :
    readString? ('\x22' :: u) = readBasic? u := by
  unfold readString?
  split
  · rename_i more heq
    exact absurd (List.cons.inj heq).2 (h more)
  · rename_i heq
    exact absurd (List.cons.inj heq).1 (by decide)
  · rename_i heq
    rw [(List.cons.inj heq).2]
  · rename_i heq
    exact absurd (List.cons.inj heq).1 (by decide)
  · rename_i hno _
    exact absurd rfl (hno u)

/-- An apostrophe starts a string on one line unless two more follow it. -/
theorem readString?_literal {u : Text} (h : ∀ more, u ≠ '\x27' :: '\x27' :: more) :
    readString? ('\x27' :: u) = readLiteral? u := by
  unfold readString?
  split
  · rename_i heq
    exact absurd (List.cons.inj heq).1 (by decide)
  · rename_i more heq
    exact absurd (List.cons.inj heq).2 (h more)
  · rename_i heq
    exact absurd (List.cons.inj heq).1 (by decide)
  · rename_i heq
    rw [(List.cons.inj heq).2]
  · rename_i hno
    exact absurd rfl (hno u)

/-- What is escaped for one line starts with no quotation mark. -/
theorem head?_escape_ne (t : Text) : (escape false 0 t).head? ≠ some '\x22' := by
  cases t with
  | nil => nofun
  | cons c t =>
    by_cases hquote : c = '\x22'
    · subst hquote
      have hwritten : escape false 0 ('\x22' :: t) = '\\' :: '\x22' :: escape false 0 t := rfl
      rw [hwritten]
      simp
    · rw [escape, if_neg (by simpa using hquote)]
      rcases escapeChar_cases false c with ⟨code, hcode, -⟩ | ⟨hplain, -, -⟩ | hlines
      · rw [hcode]
        simp
      · rw [hplain]
        simpa using hquote
      · cases hlines.1

section Lines

variable {q : Char} {escapes : Bool} {body t rest : Text}

/-- A body starts with a line break only if its text has one. -/
theorem IsBody.afterLineBreak?_eq_none {marks : Nat} (h : IsBody q escapes marks body t)
    (hinline : isInline q = true) (hfeed : '\n' ∉ t) :
    afterLineBreak? (body ++ (triple q ++ rest)) = none := by
  cases h with
  | nil => exact afterLineBreak?_of_isInline hinline _
  | mark _ _ => exact afterLineBreak?_of_isInline hinline _
  | plain _ _ hinline' _ => exact afterLineBreak?_of_isInline hinline' _
  | lineFeed _ => exact absurd List.mem_cons_self hfeed
  | escaped _ _ _ => exact afterLineBreak?_of_isInline (by decide) _

/-- A body is read as the text that it stands for, also where it starts on a line of its own. -/
theorem IsBody.readLines?_dropLineBreak (h : IsBody q escapes 0 body t) (hslash : q ≠ '\\')
    (hinline : isInline q = true) (hrest : rest.head? ≠ some q) :
    readLines? q escapes (dropLineBreak ((if t.contains '\n' then ['\n'] else []) ++
      (body ++ (triple q ++ rest)))) = some (t, rest) := by
  have hread := h.readLines?_append (by omega) hslash hinline hrest
  split
  · exact hread
  · rename_i hfeed
    have hbreak : afterLineBreak? (body ++ (triple q ++ rest)) = none :=
      h.afterLineBreak?_eq_none hinline (by simpa using hfeed)
    rw [List.nil_append, dropLineBreak, hbreak]
    exact hread

end Lines

/-- What does not start with a quote, is ended by one and not followed by another does not start
with two. -/
theorem append_ne_of_head?_ne {quote : Char} {body rest : Text} (hbody : body.head? ≠ some quote)
    (hrest : rest.head? ≠ some quote) (more : Text) :
    body ++ quote :: rest ≠ quote :: quote :: more := by
  intro heq
  cases body with
  | nil =>
    rw [List.nil_append, List.cons.injEq] at heq
    rw [heq.2] at hrest
    exact hrest rfl
  | cons c body =>
    rw [List.cons_append, List.cons.injEq] at heq
    rw [heq.1] at hbody
    exact hbody rfl

/-- A text is read back from each form that can hold it. -/
theorem StringForm.readString?_write {form : StringForm} {t : Text} (h : form.Fits t) {rest : Text}
    (hquote : rest.head? ≠ some '\x22') (hapostrophe : rest.head? ≠ some '\x27') :
    readString? (form.write t ++ rest) = some (t, rest) := by
  cases form with
  | basic =>
    have hwhole : StringForm.basic.write t ++ rest =
        '\x22' :: (escape false 0 t ++ '\x22' :: rest) := by
      simp [StringForm.write]
    rw [hwhole, readString?_basic (append_ne_of_head?_ne (head?_escape_ne t) hquote),
      readBasic?_escape]
  | literal =>
    have hwhole : StringForm.literal.write t ++ rest = '\x27' :: (t ++ '\x27' :: rest) := by
      simp [StringForm.write]
    have hhead : t.head? ≠ some '\x27' := fun hfirst => h.1 (List.mem_of_head? hfirst)
    rw [hwhole, readString?_literal (append_ne_of_head?_ne hhead hapostrophe),
      readLiteral?_append h.1 h.2]
  | basicLines =>
    have hwhole : readString? (StringForm.basicLines.write t ++ rest) =
        readLines? '\x22' true (dropLineBreak ((if t.contains '\n' then ['\n'] else []) ++
          (escape true 0 t ++ (triple '\x22' ++ rest)))) := by
      simp only [StringForm.write, List.append_assoc]
      rfl
    rw [hwhole]
    exact (isBody_escape 0 t).readLines?_dropLineBreak (by decide) (by decide) hquote
  | literalLines =>
    have hwhole : readString? (StringForm.literalLines.write t ++ rest) =
        readLines? '\x27' false (dropLineBreak ((if t.contains '\n' then ['\n'] else []) ++
          (t ++ (triple '\x27' ++ rest)))) := by
      simp only [StringForm.write, List.append_assoc]
      rfl
    rw [hwhole]
    exact (isBody_self h.1 h.2).readLines?_dropLineBreak (by decide) (by decide) hapostrophe

/-- A written string is read back, whatever follows it but a quote. -/
theorem readString?_writeString (t : Text) {rest : Text} (hquote : rest.head? ≠ some '\x22')
    (hapostrophe : rest.head? ≠ some '\x27') :
    readString? (writeString t ++ rest) = some (t, rest) :=
  StringForm.readString?_write (StringForm.fits_choose t) hquote hapostrophe

end Toml

end ClassHighlight
