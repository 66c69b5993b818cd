import Mathlib.Data.Nat.Init
import ClassHighlight.ClassString.Classified
import ClassHighlight.Proofs.ClassString.Nesting
import ClassHighlight.Proofs.Text.Place

/-!
# Tokens and their parts

A token stands in its class list, and split on its own it gives itself back. Its parts stand in
the token: the chain of variants ends with a colon, the important mark follows it, and an
arbitrary value runs from an opening bracket to a closing one.
-/

namespace ClassHighlight

namespace Token

/-! ## Words -/

/-- The end of a word does not depend on what follows it. -/
theorem splitWord_splitWord (n : Nesting) (t : Text) :
    splitWord n (splitWord n t).1 = ((splitWord n t).1, []) := by
  induction t generalizing n with
  | nil => rfl
  | cons c rest ih =>
    by_cases hend : (n.isOutside && isBlank c) = true
    · rw [splitWord, if_pos hend]
      rfl
    · have hword : splitWord n (c :: rest) =
          (c :: (splitWord (n.step c) rest).1, (splitWord (n.step c) rest).2) := by
        rw [splitWord, if_neg hend]
      rw [hword]
      simp only
      rw [splitWord, if_neg hend, ih]

/-- The blanks of a word stand in brackets. -/
theorem isOutside_of_blank {n : Nesting} {t before behind : Text} {c : Char}
    (h : (splitWord n t).1 = before ++ c :: behind) (hblank : isBlank c = true) :
    (n.after before).isOutside = false := by
  induction t generalizing n before with
  | nil => simp [splitWord] at h
  | cons d rest ih =>
    rw [splitWord] at h
    by_cases hend : (n.isOutside && isBlank d) = true
    · rw [if_pos hend] at h
      simp at h
    · rw [if_neg hend] at h
      cases before with
      | nil =>
        -- the blank is the first character of the word, which did not end the word
        obtain ⟨rfl, -⟩ : d = c ∧ _ := by simpa using h
        simpa [hblank] using hend
      | cons e before =>
        obtain ⟨rfl, hrest⟩ : d = e ∧ _ := by simpa using h
        rw [Nesting.after_cons]
        exact ih hrest

/-- A word ends at a blank outside brackets, or else with the text. -/
theorem splitWord_stops (n : Nesting) (t : Text) :
    (splitWord n t).2 = [] ∨ ((splitWord n t).2.head?.any isBlank = true ∧
      (n.after (splitWord n t).1).isOutside = true) := by
  induction t generalizing n with
  | nil => exact Or.inl rfl
  | cons c rest ih =>
    rw [splitWord]
    by_cases hend : (n.isOutside && isBlank c) = true
    · rw [if_pos hend]
      rw [Bool.and_eq_true] at hend
      exact Or.inr ⟨hend.2, hend.1⟩
    · rw [if_neg hend]
      exact ih (n.step c)

/-! ## Tokens -/

/-- How a token is read from a class list: the scan comes to its first character as to the start of
a list, and takes the word from there. -/
structure IsWordAt (token : Token) (t front : Text) (c : Char) (rest : Text) : Prop where
  /-- The class list is what stands before the token, its first character and the rest. -/
  whole : t = front ++ c :: rest
  /-- The token starts behind what stands before it. -/
  start : Text.byteLength front = token.start
  /-- The scan remembers nothing of what stands before it. -/
  fresh : Nesting.start.after front = Nesting.start
  /-- The first character is no blank. -/
  head : isBlank c = false
  /-- The token is the word from there. -/
  text : token.text = c :: (splitWord (Nesting.start.step c) rest).1

/-- The scan comes from some text to what follows as to the start of a list, or it comes to a blank
outside brackets. -/
def IsBetweenWords (before t : Text) : Prop :=
  Nesting.start.after before = Nesting.start ∨
    ((Nesting.start.after before).isOutside = true ∧ t.head?.any isBlank = true)

section IsBetweenWords

variable {before rest : Text} {c : Char}

/-- A character that is no blank is read as at the start of a list. -/
theorem IsBetweenWords.fresh (h : IsBetweenWords before (c :: rest)) (hc : ¬ isBlank c = true) :
    Nesting.start.after before = Nesting.start := by
  rcases h with hstart | ⟨-, hblank⟩
  · exact hstart
  · exact absurd hblank hc

/-- Behind a blank the scan is at the start again. -/
theorem IsBetweenWords.behind_blank (h : IsBetweenWords before (c :: rest))
    (hc : isBlank c = true) : IsBetweenWords (before ++ [c]) rest := by
  have hout : (Nesting.start.after before).isOutside = true := by
    rcases h with hstart | ⟨hout, -⟩
    · rw [hstart]
      rfl
    · exact hout
  left
  rw [Nesting.after_append]
  exact Nesting.step_blank (Nesting.quotesInside_after_start before) hout hc

/-- Behind a word that does not take all the rest the scan comes to a blank. -/
theorem IsBetweenWords.behind_word (h : IsBetweenWords before (c :: rest))
    (hc : ¬ isBlank c = true) (hrest : (splitWord (Nesting.start.step c) rest).2 ≠ []) :
    IsBetweenWords (before ++ c :: (splitWord (Nesting.start.step c) rest).1)
      (splitWord (Nesting.start.step c) rest).2 := by
  rcases (splitWord_stops (Nesting.start.step c) rest).resolve_left hrest with ⟨hnext, hout⟩
  right
  rw [Nesting.after_append, h.fresh hc]
  exact ⟨hout, hnext⟩

end IsBetweenWords

/-- Every token behind some text is the word at its place, and it is the last one if nothing is
left behind that word. -/
theorem exists_isWordAt_behind {before t : Text} {earlier later : List Token} {token : Token}
    (hbefore : IsBetweenWords before t)
    (h : splitFrom (Text.byteLength before) t = earlier ++ token :: later) :
    ∃ front c rest, token.IsWordAt (before ++ t) front c rest ∧
      ((splitWord (Nesting.start.step c) rest).2 = [] → later = []) := by
  -- what is left gets shorter, by one blank or by one token
  induction hn : t.length using Nat.strong_induction_on generalizing before t earlier with
  | _ n ih =>
    cases t with
    | nil =>
      rw [splitFrom] at h
      simp at h
    | cons c rest =>
      rw [splitFrom] at h
      by_cases hblank : isBlank c = true
      · -- a blank goes to the text before
        rw [if_pos hblank] at h
        have hlength : Text.byteLength before + c.utf8Size = Text.byteLength (before ++ [c]) := by
          simp
        rw [hlength] at h
        have hread := ih rest.length (by rw [← hn]; simp) (hbefore.behind_blank hblank) h rfl
        rwa [List.append_assoc] at hread
      · rw [if_neg hblank] at h
        cases earlier with
        | nil =>
          -- the token that starts here
          obtain ⟨rfl, hlater⟩ := List.cons.inj h
          refine ⟨before, c, rest, ⟨rfl, rfl, hbefore.fresh hblank, by simpa using hblank, rfl⟩, ?_⟩
          intro hend
          rw [hend, splitFrom] at hlater
          exact hlater.symm
        | cons first earlier =>
          -- a later token is read behind the one that starts here
          have hlater := (List.cons.inj h).2
          rw [← Text.byteLength_append] at hlater
          have hrest : (splitWord (Nesting.start.step c) rest).2 ≠ [] := by
            intro hend
            rw [hend, splitFrom] at hlater
            simp at hlater
          have hle := length_splitWord_le (Nesting.start.step c) rest
          have hread := ih _ (by rw [← hn, List.length_cons]; omega)
            (hbefore.behind_word hblank hrest) hlater rfl
          rw [List.append_assoc, List.cons_append, splitWord_append] at hread
          exact hread

/-- Every token of a class list is the word at its place, and it is the last one if nothing is left
behind that word. -/
theorem exists_isWordAt {t : Text} {earlier later : List Token} {token : Token}
    (h : split t = earlier ++ token :: later) :
    ∃ front c rest, token.IsWordAt t front c rest ∧
      ((splitWord (Nesting.start.step c) rest).2 = [] → later = []) :=
  @exists_isWordAt_behind [] t earlier later token (Or.inl rfl) h

/-- What it means for a token to be read from a class list. -/
structure IsReadFrom (token : Token) (t : Text) : Prop where
  /-- It stands in the class list. -/
  place : t.HasAt token.start token.text
  /-- It is not empty. -/
  nonempty : token.text ≠ []
  /-- On its own it is its only token. -/
  alone : split token.text = [⟨token.text, 0⟩]

theorem split_word {c : Char} (hc : isBlank c = false) (rest : Text) :
    split (c :: (splitWord (Nesting.start.step c) rest).1) =
      [⟨c :: (splitWord (Nesting.start.step c) rest).1, 0⟩] := by
  rw [split, splitFrom, if_neg (by rw [hc]; decide), splitWord_splitWord]
  simp only
  rw [splitFrom]

/-- Every token of a class list is read from it. -/
theorem isReadFrom_of_mem_split {t : Text} {token : Token} (h : token ∈ split t) :
    token.IsReadFrom t := by
  rcases List.append_of_mem h with ⟨earlier, later, hsplit⟩
  rcases exists_isWordAt hsplit with ⟨front, c, rest, hword, -⟩
  refine ⟨⟨front, (splitWord (Nesting.start.step c) rest).2, ?_, hword.start⟩, ?_, ?_⟩
  · rw [hword.whole, hword.text, List.append_assoc, List.cons_append, splitWord_append]
  · rw [hword.text]
    exact List.cons_ne_nil _ _
  · rw [hword.text]
    exact split_word hword.head rest

end Token

namespace Classified

/-- A part of a token that is an arbitrary value. -/
def IsBracketed (t : Text) (s : Span) : Prop :=
  ∃ value, t.HasAt s.start value ∧ s.stop = s.start + Text.byteLength value ∧
    value.head? = some '[' ∧ value.getLast? = some ']'

/-- The brackets found behind some text are arbitrary values; `opened` is the place of the opening
bracket when one is open. -/
theorem isBracketed_of_mem_brackets {n : Nesting} {opened : Nat} {before t : Text} {s : Span}
    (hopened : n.isOutside = false →
      ∃ first value, before = first ++ '[' :: value ∧ Text.byteLength first = opened)
    (h : s ∈ brackets n opened (Text.byteLength before) t) : IsBracketed (before ++ t) s := by
  induction t generalizing n opened before with
  | nil => cases h
  | cons c rest ih =>
    have hstop : Text.byteLength before + c.utf8Size = Text.byteLength (before ++ [c]) := by
      simp
    -- if brackets are open behind the character, their opening bracket stands in the text before
    have hopened' : (n.step c).isOutside = false → ∃ first value, before ++ [c] =
        first ++ '[' :: value ∧ Text.byteLength first =
          if n.isOutside then Text.byteLength before else opened := by
      intro hnext
      by_cases hout : n.isOutside = true
      · -- the brackets open here
        rw [(Nesting.eq_of_enters hout hnext).1, if_pos hout]
        exact ⟨before, [], rfl, rfl⟩
      · -- they were open already
        rcases hopened (by simpa using hout) with ⟨first, value, rfl, hfirst⟩
        rw [if_neg hout]
        exact ⟨first, value ++ [c], by simp, hfirst⟩
    rw [brackets, hstop] at h
    have hlater : s ∈ brackets (n.step c) (if n.isOutside then Text.byteLength before else opened)
        (Text.byteLength (before ++ [c])) rest → IsBracketed (before ++ c :: rest) s := by
      intro hin
      have := ih hopened' hin
      rwa [List.append_assoc] at this
    split at h
    · rename_i hleaves
      rw [Bool.and_eq_true, Bool.not_eq_true'] at hleaves
      rcases List.mem_cons.1 h with rfl | h
      · -- the brackets close here
        rcases hopened hleaves.1 with ⟨first, value, rfl, hfirst⟩
        rw [Nesting.eq_of_leaves hleaves.1 hleaves.2]
        refine ⟨'[' :: value ++ [']'], ⟨first, rest, by simp, hfirst⟩, ?_, rfl,
          List.getLast?_concat⟩
        simp only [Text.byteLength_append, Text.byteLength_cons, hfirst, List.cons_append]
        omega
      · exact hlater h
    · exact hlater h

/-- The chain of variants found behind some text ends with a colon, or where it ended before. -/
theorem afterLastColon_spec (n : Nesting) (last : Nat) (before t : Text) :
    afterLastColon n last (Text.byteLength before) t = last ∨ ∃ chain rest,
      before ++ t = chain ++ rest ∧ chain.getLast? = some ':' ∧
        afterLastColon n last (Text.byteLength before) t = Text.byteLength chain := by
  induction t generalizing n last before with
  | nil => exact Or.inl rfl
  | cons c rest ih =>
    have hstop : Text.byteLength before + c.utf8Size = Text.byteLength (before ++ [c]) := by
      simp
    rw [afterLastColon, hstop]
    rcases ih (n.step c) (if c == ':' && n.isOutside && !n.escaped
        then Text.byteLength (before ++ [c]) else last) (before ++ [c]) with
      hlast | ⟨chain, tail, hsplit, hcolon, hlength⟩
    · -- no colon follows, so the last one is the character at hand or an earlier one
      rw [hlast]
      split
      · rename_i hcolon
        simp only [Bool.and_eq_true, beq_iff_eq] at hcolon
        right
        exact ⟨before ++ [c], rest, by simp, by simp [hcolon.1.1], rfl⟩
      · exact Or.inl rfl
    · right
      refine ⟨chain, tail, ?_, hcolon, hlength⟩
      rw [← hsplit, List.append_assoc]
      rfl

/-- The chain of variants stands at the start of its token and ends with a colon. -/
theorem variantLength_spec (token : Token) (h : (ofToken token).variantLength ≠ 0) :
    ∃ chain, token.text.HasAt 0 chain ∧ chain.getLast? = some ':' ∧
      (ofToken token).variantLength = Text.byteLength chain := by
  rcases afterLastColon_spec .start 0 [] token.text with hlast | ⟨chain, rest, hsplit, hcolon, hlen⟩
  · exact absurd hlast h
  · refine ⟨chain, ⟨[], rest, ?_, rfl⟩, hcolon, hlen⟩
    exact hsplit

/-- The important mark stands right behind the chain of variants. -/
theorem isImportant_spec (token : Token) (h : (ofToken token).isImportant = true) :
    token.text.HasAt (ofToken token).variantLength ['!'] := by
  rcases Option.any_eq_true _ _ |>.1 h with ⟨⟨chain, rest⟩, hsplit, hmark⟩
  rcases Text.eq_append_of_splitAtByte? hsplit with ⟨happend, hlength⟩
  cases rest with
  | nil => cases hmark
  | cons c rest =>
    rw [beq_iff_eq] at hmark
    cases hmark
    exact ⟨chain, rest, by simpa using happend, hlength⟩

/-- The important mark is the byte behind the chain of variants. -/
theorem isImportant_iff (token : Token) : (ofToken token).isImportant = true ↔
    (Text.bytes token.text)[(ofToken token).variantLength]? = some '!'.toUInt8 := by
  rw [← Text.hasAt_iff_getElem? (by decide)]
  constructor
  · exact isImportant_spec token
  · rintro ⟨chain, rest, hsplit, hlength⟩
    show (Text.splitAtByte? (ofToken token).variantLength token.text).any _ = true
    rw [← hlength, hsplit, List.append_assoc, Text.splitAtByte?_append]
    rfl

/-- The arbitrary values of a token stand in brackets. -/
theorem isBracketed_of_mem_arbitrary {token : Token} {s : Span}
    (h : s ∈ (ofToken token).arbitrary) : IsBracketed token.text s :=
  @isBracketed_of_mem_brackets .start 0 [] token.text s (fun hout => absurd hout (by decide)) h

end Classified

end ClassHighlight
