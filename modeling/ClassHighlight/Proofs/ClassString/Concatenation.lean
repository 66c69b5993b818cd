import ClassHighlight.Proofs.ClassString.Brackets
import ClassHighlight.Proofs.Highlight

/-!
# Class lists one behind the other

A blank between two class lists keeps them apart, unless the first one ends within a bracket. Then
the tokens of the whole are those of both, and so are the highlights. Nothing else that stands
before the blank has an effect on what stands behind it: neither a backslash, nor a closing bracket
that was never opened, nor a quote.
-/

namespace ClassHighlight

namespace Token

/-! ## Words -/

/-- A word that ends before the text does is the same with any text behind. -/
theorem splitWord_append_of_stops {n : Nesting} {t : Text} (h : (splitWord n t).2 ≠ [])
    (behind : Text) :
    splitWord n (t ++ behind) = ((splitWord n t).1, (splitWord n t).2 ++ behind) := by
  induction t generalizing n with
  | nil => exact absurd rfl h
  | cons c rest ih =>
    rw [List.cons_append, splitWord, splitWord]
    by_cases hend : (n.isOutside && isBlank c) = true
    · rw [if_pos hend, if_pos hend]
      rfl
    · rw [splitWord, if_neg hend] at h
      rw [if_neg hend, if_neg hend, ih h]

/-- A word that runs to the end of the text goes on with the text behind. -/
theorem splitWord_append_of_runs {n : Nesting} {t : Text} (h : (splitWord n t).2 = [])
    (behind : Text) :
    splitWord n (t ++ behind) =
      (t ++ (splitWord (n.after t) behind).1, (splitWord (n.after t) behind).2) := by
  induction t generalizing n with
  | nil => rfl
  | cons c rest ih =>
    have hend : ¬ (n.isOutside && isBlank c) = true := by
      intro hend
      rw [splitWord, if_pos hend] at h
      cases h
    rw [splitWord, if_neg hend] at h
    rw [List.cons_append, splitWord, if_neg hend, ih h]
    rfl

/-- A word that runs to the end of the text is all of it. -/
theorem splitWord_eq_self {n : Nesting} {t : Text} (h : (splitWord n t).2 = []) :
    (splitWord n t).1 = t := by
  have happend := splitWord_append n t
  rwa [h, List.append_nil] at happend

/-! ## Where the scan ends -/

/-- The scan of a list that does not end with its first word ends as that of the rest. -/
theorem after_of_stops {c : Char} {rest : Text}
    (h : (splitWord (Nesting.start.step c) rest).2 ≠ []) :
    Nesting.start.after (c :: rest) =
      Nesting.start.after (splitWord (Nesting.start.step c) rest).2 := by
  rcases (splitWord_stops _ rest).resolve_left h with ⟨hblank, hout⟩
  have hquotes := Nesting.quotesInside_after_start (c :: (splitWord (Nesting.start.step c) rest).1)
  conv => lhs; rw [← splitWord_append (Nesting.start.step c) rest]
  rw [← List.cons_append, Nesting.after_append]
  exact Nesting.after_of_blank hquotes hout hblank

/-- The scan of a class list ends outside brackets exactly when those of all its tokens do. -/
theorem isOutside_after_iff (offset : Nat) (t : Text) :
    (Nesting.start.after t).isOutside = true ↔
      ∀ token ∈ splitFrom offset t, (Nesting.start.after token.text).isOutside = true := by
  fun_induction splitFrom offset t with
  | case1 offset =>
    constructor
    · intro _ token hin
      cases hin
    · intro _
      rfl
  | case2 offset c rest hblank ih =>
    rw [Nesting.after_cons_of_blank hblank]
    exact ih
  | case3 offset c rest hblank word ih =>
    rw [List.forall_mem_cons, ← ih]
    by_cases hrest : (splitWord (Nesting.start.step c) rest).2 = []
    · -- the word is all of the list
      have hword : word = c :: rest := congrArg (c :: ·) (splitWord_eq_self hrest)
      rw [hrest, hword]
      exact (and_iff_left rfl).symm
    · rw [after_of_stops hrest]
      exact (and_iff_right ((splitWord_stops _ rest).resolve_left hrest).2).symm

/-- No token of a class list leaves a bracket open. -/
def ClosesBrackets (t : Text) : Prop :=
  ∀ token ∈ split t, ¬ ∃ o, (Classified.ofToken token).LeavesOpen o

/-- No token leaves a bracket open exactly when the scan of the list ends outside brackets. -/
theorem closesBrackets_iff {t : Text} :
    ClosesBrackets t ↔ (Nesting.start.after t).isOutside = true := by
  rw [isOutside_after_iff 0 t]
  simp only [ClosesBrackets, Classified.exists_leavesOpen_iff, Bool.not_eq_false]
  rfl

/-! ## Tokens of the whole -/

/-- The tokens of a list do not depend on where it starts. -/
theorem splitFrom_add (base offset : Nat) (t : Text) :
    splitFrom (base + offset) t = (splitFrom offset t).map fun token => token.shift base := by
  fun_induction splitFrom offset t with
  | case1 offset => rw [splitFrom, List.map_nil]
  | case2 offset c rest hblank ih =>
    rw [splitFrom, if_pos hblank, Nat.add_assoc, ih]
  | case3 offset c rest hblank word ih =>
    rw [splitFrom, if_neg hblank, List.map_cons, ← ih, ← Nat.add_assoc]
    rfl

/-- Behind a blank outside brackets the tokens are those of what follows. -/
theorem splitFrom_append_of_isOutside {a : Text} {w : Char} (hw : isBlank w = true) (b : Text)
    (offset : Nat) (ha : (Nesting.start.after a).isOutside = true) :
    splitFrom offset (a ++ w :: b) =
      splitFrom offset a ++ splitFrom (offset + Text.byteLength (a ++ [w])) b := by
  have hbehind : ∀ k, splitFrom k (w :: b) = splitFrom (k + w.utf8Size) b := by
    intro k
    rw [splitFrom, if_pos hw]
  fun_induction splitFrom offset a with
  | case1 offset => exact hbehind offset
  | case2 offset c rest hblank ih =>
    rw [Nesting.after_cons_of_blank hblank] at ha
    rw [List.cons_append, splitFrom, if_pos hblank, ih ha, List.cons_append, Text.byteLength_cons,
      Nat.add_assoc]
  | case3 offset c rest hblank word ih =>
    rw [List.cons_append, splitFrom, if_neg hblank]
    by_cases hrest : (splitWord (Nesting.start.step c) rest).2 = []
    · -- the word ends at the blank
      have hstop : splitWord ((Nesting.start.step c).after rest) (w :: b) = ([], w :: b) := by
        rw [splitWord, if_pos]
        rw [Bool.and_eq_true]
        exact ⟨ha, hw⟩
      have hword : word = c :: rest := congrArg (c :: ·) (splitWord_eq_self hrest)
      have hlength : Text.byteLength (c :: rest ++ [w]) = Text.byteLength word + w.utf8Size := by
        rw [hword, Text.byteLength_append]
        rfl
      have hnone : splitFrom (offset + Text.byteLength word) [] = [] := by
        rw [splitFrom]
      rw [splitWord_append_of_runs hrest, hstop, hrest, hnone, hlength, ← Nat.add_assoc, ← hbehind,
        hword, List.append_nil]
      rfl
    · -- the word ends before the list does
      rw [after_of_stops hrest] at ha
      have hlength : Text.byteLength (c :: rest ++ [w]) = Text.byteLength word +
          Text.byteLength ((splitWord (Nesting.start.step c) rest).2 ++ [w]) := by
        rw [← Text.byteLength_append, ← List.append_assoc]
        show _ = Text.byteLength (c :: (_ ++ _) ++ [w])
        rw [splitWord_append]
      rw [splitWord_append_of_stops hrest]
      simp only
      rw [ih ha, hlength, ← Nat.add_assoc]
      rfl

/-- A character behind a list that ends within brackets goes into the last token. -/
theorem splitFrom_append_ne {a : Text} (w : Char) (b : Text) (offset : Nat)
    (ha : (Nesting.start.after a).isOutside = false) (later : List Token) :
    splitFrom offset (a ++ w :: b) ≠ splitFrom offset a ++ later := by
  fun_induction splitFrom offset a with
  | case1 offset => cases ha
  | case2 offset c rest hblank ih =>
    rw [Nesting.after_cons_of_blank hblank] at ha
    rw [List.cons_append, splitFrom, if_pos hblank]
    exact ih ha
  | case3 offset c rest hblank word ih =>
    rw [List.cons_append, splitFrom, if_neg hblank, List.cons_append]
    by_cases hrest : (splitWord (Nesting.start.step c) rest).2 = []
    · -- the word does not end at the character
      have hgoes : (splitWord ((Nesting.start.step c).after rest) (w :: b)).1 =
          w :: (splitWord (((Nesting.start.step c).after rest).step w) b).1 := by
        rw [splitWord, if_neg]
        rw [Bool.and_eq_true]
        rintro ⟨hout, -⟩
        rw [Nesting.after_cons, hout] at ha
        cases ha
      have hword : word = c :: rest := congrArg (c :: ·) (splitWord_eq_self hrest)
      intro heq
      have hlength := congrArg (fun token : Token => token.text.length) (List.cons.inj heq).1
      rw [splitWord_append_of_runs hrest, hword, hgoes] at hlength
      simp at hlength
    · rw [after_of_stops hrest] at ha
      rw [splitWord_append_of_stops hrest]
      intro heq
      exact ih ha (List.cons.inj heq).2

end Token

namespace Highlights

theorem get_append (h h' : Highlights) (c : Category) :
    (h.append h').get c = h.get c ++ h'.get c := by
  rw [append, ByCategory.get_ofFn]

theorem append_append (h h' h'' : Highlights) :
    (h.append h').append h'' = h.append (h'.append h'') := by
  apply ByCategory.ext_get
  intro c
  simp only [get_append, List.append_assoc]

/-- The highlights of a list whose tokens are those of two others are those of the two. -/
theorem ofClassString_of_split {a b whole : Text} {distance : Nat}
    (h : Token.split whole =
      Token.split a ++ (Token.split b).map fun token => token.shift distance) (base : Nat) :
    ofClassString base whole = (ofClassString base a).append (ofClassString (base + distance) b) := by
  have hshift : (fun token : Token => token.shift base) ∘ (fun token : Token =>
      token.shift distance) = fun token : Token => token.shift (base + distance) := by
    funext token
    simp only [Function.comp_apply, Token.shift, Nat.add_assoc]
  apply ByCategory.ext_get
  intro c
  rw [get_append]
  simp only [get_ofClassString]
  rw [h, List.map_append, List.flatMap_append, List.map_map, hshift]

end Highlights

/-- With a blank between two class lists the tokens are those of the first list and, moved behind
the blank, those of the second one exactly when no token of the first list leaves a bracket open.
Then whatever was highlighted before, the highlights of the whole are those of the first list and
those of the second one. -/
theorem Token.split_append_iff {w : Char} (hw : isBlank w = true) (a b : Text) :
    (split (a ++ w :: b) = split a ++
        ((split b).map fun token => token.shift (Text.byteLength (a ++ [w]))) ↔
      ClosesBrackets a) ∧
    (ClosesBrackets a → ∀ (before : Highlights) (base : Nat),
      before.append (Highlights.ofClassString base (a ++ w :: b)) =
        (before.append (Highlights.ofClassString base a)).append
          (Highlights.ofClassString (base + Text.byteLength (a ++ [w])) b)) := by
  have hsplit : ClosesBrackets a → split (a ++ w :: b) = split a ++
      ((split b).map fun token => token.shift (Text.byteLength (a ++ [w]))) := by
    intro ha
    have happend := splitFrom_append_of_isOutside hw b 0 (closesBrackets_iff.1 ha)
    rw [Nat.zero_add, ← Nat.add_zero (Text.byteLength _), splitFrom_add] at happend
    exact happend
  refine ⟨⟨?_, hsplit⟩, ?_⟩
  · intro heq
    rw [closesBrackets_iff]
    by_contra hopen
    exact splitFrom_append_ne w b 0 (by simpa using hopen) _ heq
  · intro ha before base
    rw [Highlights.append_append, Highlights.ofClassString_of_split (hsplit ha)]

/-- A quote, a closing bracket and a backslash before a wide blank do not reach what is behind. -/
theorem Token.split_append_behind_backslash :
    isBlank '\u2003' = true ∧ ClosesBrackets "it's] p-[1 2]\\".toList ∧
    split ("it's] p-[1 2]\\".toList ++ '\u2003' :: "[a b] c".toList) =
      [⟨"it's]".toList, 0⟩, ⟨"p-[1 2]\\".toList, 6⟩, ⟨"[a b]".toList, 17⟩, ⟨"c".toList, 23⟩] ∧
    Highlights.empty.append (Highlights.ofClassString 5
        ("it's] p-[1 2]\\".toList ++ '\u2003' :: "[a b] c".toList)) =
      (Highlights.empty.append (Highlights.ofClassString 5 "it's] p-[1 2]\\".toList)).append
        (Highlights.ofClassString 22 "[a b] c".toList) := by
  have hw : isBlank '\u2003' = true := by decide
  have ha : ClosesBrackets "it's] p-[1 2]\\".toList := by
    rw [closesBrackets_iff]
    decide +kernel
  rcases split_append_iff hw "it's] p-[1 2]\\".toList "[a b] c".toList with ⟨htokens, hhighlights⟩
  refine ⟨hw, ha, ?_, hhighlights ha Highlights.empty 5⟩
  rw [htokens.2 ha]
  decide +kernel

end ClassHighlight
