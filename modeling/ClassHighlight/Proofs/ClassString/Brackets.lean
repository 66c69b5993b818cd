import ClassHighlight.Proofs.ClassString.ClassifiedPass
import ClassHighlight.Proofs.ClassString.Order
import ClassHighlight.Proofs.ClassString.TokenPass

/-!
# Blanks and brackets of a token

Splitting a class list and finding the parts of a token agree on what is in brackets. A token holds
blanks only in its arbitrary values, and none of its brackets stays open. The one exception is a
bracket that is never closed in the list: the last token runs from before it to the end, and its
blanks may stand behind that bracket.
-/

namespace ClassHighlight

namespace Classified

/-! ## Arbitrary values -/

section Brackets

variable {n : Nesting} {opened offset : Nat} {c : Char} {t : Text}

/-- Outside brackets a bracket may open at the offset. -/
theorem brackets_of_outside (h : n.isOutside = true) (opened offset : Nat) (c : Char) (t : Text) :
    brackets n opened offset (c :: t) =
      brackets (n.step c) offset (offset + c.utf8Size) t := by
  simp [brackets, h]

/-- Within brackets the outermost one may close behind the character. -/
theorem brackets_of_inside (h : n.isOutside = false) (opened offset : Nat) (c : Char) (t : Text) :
    brackets n opened offset (c :: t) =
      (if (n.step c).isOutside then [⟨opened, offset + c.utf8Size⟩] else []) ++
        brackets (n.step c) opened (offset + c.utf8Size) t := by
  simp only [brackets, h]
  split <;> simp_all

/-- The brackets of a text are those of a part of it and those of the rest. -/
theorem exists_brackets_append (n : Nesting) (opened offset : Nat) (s t : Text) :
    ∃ opened', brackets n opened offset (s ++ t) = brackets n opened offset s ++
      brackets (n.after s) opened' (offset + Text.byteLength s) t := by
  induction s generalizing n opened offset with
  | nil => exact ⟨opened, rfl⟩
  | cons c rest ih =>
    rcases ih (n.step c) (if n.isOutside then offset else opened) (offset + c.utf8Size) with
      ⟨opened', hrest⟩
    refine ⟨opened', ?_⟩
    rw [List.cons_append, brackets, brackets, hrest, Text.byteLength_cons, ← Nat.add_assoc]
    split <;> rfl

/-- A text that keeps the scan within brackets closes none. -/
theorem brackets_of_staysInside (h : n.StaysInside t) (opened offset : Nat) :
    brackets n opened offset t = [] := by
  induction t generalizing n opened offset with
  | nil => rfl
  | cons c rest ih =>
    have hnext : (n.step c).isOutside = false := h [c] rest rfl (List.cons_ne_nil _ _)
    rw [brackets, hnext, Bool.and_false, if_neg Bool.false_ne_true]
    apply ih
    intro first later hsplit hne
    exact h (c :: first) later (by rw [hsplit]; rfl) (List.cons_ne_nil _ _)

/-- A bracket that is open and closed later is found from where it opened. -/
theorem exists_mem_brackets_of_open (hopen : n.isOutside = false)
    (hclosed : (n.after t).isOutside = true) (opened offset : Nat) :
    ∃ s ∈ brackets n opened offset t, s.start = opened ∧ offset < s.stop := by
  induction t generalizing n offset with
  | nil =>
    rw [Nesting.after_nil, hopen] at hclosed
    cases hclosed
  | cons c rest ih =>
    have hpos := c.utf8Size_pos
    rw [brackets_of_inside hopen]
    by_cases hnext : (n.step c).isOutside = true
    · -- it closes here
      rw [if_pos hnext]
      exact ⟨_, List.mem_append_left _ List.mem_cons_self, rfl, Nat.lt_add_of_pos_right hpos⟩
    · rcases ih (by simpa using hnext) hclosed (offset + c.utf8Size) with ⟨s, hs, hstart, hstop⟩
      exact ⟨s, List.mem_append_right _ hs, hstart, by omega⟩

/-- A character that is read in brackets which are closed later lies in an arbitrary value. -/
theorem exists_mem_brackets {before behind : Text}
    (hopened : n.isOutside = false → opened ≤ offset)
    (hin : (n.after before).isOutside = false ∨ ((n.after before).step c).isOutside = false)
    (hclosed : (n.after (before ++ c :: behind)).isOutside = true) :
    ∃ s ∈ brackets n opened offset (before ++ c :: behind),
      s.start ≤ offset + Text.byteLength before ∧
        offset + Text.byteLength before + c.utf8Size ≤ s.stop := by
  induction before generalizing n opened offset with
  | nil =>
    rw [List.nil_append, Text.byteLength_nil, Nat.add_zero]
    cases hout : n.isOutside with
    | true =>
      -- the brackets open with the character
      have hnext : (n.step c).isOutside = false := by
        rcases hin with hin | hin
        · rw [Nesting.after_nil, hout] at hin
          cases hin
        · exact hin
      rcases exists_mem_brackets_of_open hnext hclosed offset (offset + c.utf8Size) with
        ⟨s, hs, hstart, hstop⟩
      rw [brackets_of_outside hout]
      exact ⟨s, hs, by omega, by omega⟩
    | false =>
      have hle := hopened hout
      rw [brackets_of_inside hout]
      cases hnext : (n.step c).isOutside with
      | true =>
        -- they close with it
        exact ⟨⟨opened, offset + c.utf8Size⟩, List.mem_append_left _ List.mem_cons_self, hle,
          Nat.le_refl _⟩
      | false =>
        rcases exists_mem_brackets_of_open hnext hclosed opened (offset + c.utf8Size) with
          ⟨s, hs, hstart, hstop⟩
        exact ⟨s, List.mem_append_right _ hs, by omega, by omega⟩
  | cons d before ih =>
    have hpos := d.utf8Size_pos
    rw [Text.byteLength_cons, ← Nat.add_assoc, List.cons_append]
    cases hout : n.isOutside with
    | true =>
      rw [brackets_of_outside hout]
      exact ih (fun _ => by omega) hin hclosed
    | false =>
      have hle := hopened hout
      rcases @ih (n.step d) opened (offset + d.utf8Size) (fun _ => by omega) hin hclosed with
        ⟨s, hs, hcontains⟩
      rw [brackets_of_inside hout]
      exact ⟨s, List.mem_append_right _ hs, hcontains⟩

/-- An arbitrary value goes from where the scan comes into brackets, or from where it was before if
it is in brackets at the start, up to where it leaves them. -/
theorem closes_of_mem_brackets {s : Span} (h : s ∈ brackets n opened offset t) :
    (∃ inner d behind, t = inner ++ d :: behind ∧ n.Closes inner d ∧ s.start = opened ∧
        s.stop = offset + Text.byteLength (inner ++ [d])) ∨
      ∃ before c inner d behind, t = before ++ c :: (inner ++ d :: behind) ∧
        (n.after before).isOutside = true ∧ ((n.after before).step c).Closes inner d ∧
          s.start = offset + Text.byteLength before ∧
            s.stop = s.start + Text.byteLength (c :: (inner ++ [d])) := by
  induction t generalizing n opened offset with
  | nil => cases h
  | cons c rest ih =>
    -- a value that starts in the rest starts there in the whole
    have hlater : (∃ before c' inner d behind, rest = before ++ c' :: (inner ++ d :: behind) ∧
        ((n.step c).after before).isOutside = true ∧
          (((n.step c).after before).step c').Closes inner d ∧
            s.start = offset + c.utf8Size + Text.byteLength before ∧
              s.stop = s.start + Text.byteLength (c' :: (inner ++ [d]))) →
        ∃ before c' inner d behind, c :: rest = before ++ c' :: (inner ++ d :: behind) ∧
          (n.after before).isOutside = true ∧ ((n.after before).step c').Closes inner d ∧
            s.start = offset + Text.byteLength before ∧
              s.stop = s.start + Text.byteLength (c' :: (inner ++ [d])) := by
      rintro ⟨before, c', inner, d, behind, hsplit, hout, hcloses, hstart, hstop⟩
      refine ⟨c :: before, c', inner, d, behind, by rw [hsplit]; rfl, hout, hcloses, ?_, hstop⟩
      rw [hstart, Text.byteLength_cons, Nat.add_assoc]
    cases hout : n.isOutside with
    | true =>
      rw [brackets_of_outside hout] at h
      right
      rcases ih h with ⟨inner, d, behind, hsplit, hcloses, hstart, hstop⟩ | hrest
      · -- the brackets open with the character
        refine ⟨[], c, inner, d, behind, by rw [hsplit]; rfl, hout, hcloses, hstart, ?_⟩
        rw [hstop, hstart, Text.byteLength_cons, Nat.add_assoc]
      · exact hlater hrest
    | false =>
      rw [brackets_of_inside hout] at h
      rcases List.mem_append.1 h with hhere | hrest
      · -- they close with the character
        left
        split at hhere
        · rename_i hleaves
          rw [List.mem_singleton.1 hhere]
          refine ⟨[], c, rest, rfl, ⟨?_, hleaves⟩, rfl, rfl⟩
          intro first later hsplit
          rw [(List.append_eq_nil_iff.1 hsplit.symm).1]
          exact hout
        · cases hhere
      · rcases ih hrest with ⟨inner, d, behind, hsplit, hcloses, hstart, hstop⟩ | hrest
        · left
          refine ⟨c :: inner, d, behind, by rw [hsplit]; rfl, hcloses.cons hout, hstart, ?_⟩
          rw [hstop, List.cons_append, Text.byteLength_cons, Nat.add_assoc]
        · exact Or.inr (hlater hrest)

end Brackets

/-! ## Characters in brackets -/

/-- A character at an offset of a token lies in one of its arbitrary values. -/
def InValue (parts : Classified) (i : Nat) (c : Char) : Prop :=
  ∃ s ∈ parts.arbitrary, s.start ≤ i ∧ i + c.utf8Size ≤ s.stop

/-- An opening bracket that is not escaped stands at an offset of a token. -/
def OpensAt (parts : Classified) (i : Nat) : Prop :=
  parts.token.text.HasAt i ['['] ∧ isEscaped (Text.bytes parts.token.text) i = false

/-- The outermost bracket that opens at an offset of a token is never closed. -/
structure LeavesOpen (parts : Classified) (i : Nat) : Prop where
  /-- A bracket opens there. -/
  opens : parts.OpensAt i
  /-- The brackets that open before it are closed. -/
  outermost : ∀ j < i, parts.OpensAt j → parts.InValue j '['
  /-- They are closed before it, and it is not closed itself. -/
  unclosed : ∀ s ∈ parts.arbitrary, s.stop ≤ i

section Parts

variable {token : Token} {closed rest : Text} {i : Nat} {c : Char}

/-- The scan reads an opening bracket that is not escaped within brackets. -/
theorem OpensAt.reads (h : (ofToken token).OpensAt i) {before behind : Text}
    (hplace : token.text = before ++ '[' :: behind) (hi : Text.byteLength before = i) :
    ((Nesting.start.after before).step '[').isOutside = false := by
  apply Nesting.isOutside_step_bracket (Nesting.quotesInside_after_start before)
  rw [Nesting.escaped_after_front hplace, hi]
  exact h.2

/-- What is read in brackets before a place outside them lies in an arbitrary value. -/
theorem inValue_of_closed (hsplit : token.text = closed ++ rest)
    (hclosed : (Nesting.start.after closed).isOutside = true) {before behind : Text}
    (hplace : closed = before ++ c :: behind)
    (hin : (Nesting.start.after before).isOutside = false ∨
      ((Nesting.start.after before).step c).isOutside = false) :
    (ofToken token).InValue (Text.byteLength before) c := by
  subst hplace
  have hopened : Nesting.start.isOutside = false → 0 ≤ 0 := fun _ => Nat.le_refl 0
  rcases exists_mem_brackets hopened hin hclosed with ⟨s, hs, hstart, hstop⟩
  rcases exists_brackets_append .start 0 0 (before ++ c :: behind) rest with ⟨opened, happend⟩
  rw [Nat.zero_add] at hstart hstop
  refine ⟨s, ?_, hstart, hstop⟩
  show s ∈ brackets .start 0 0 token.text
  rw [hsplit, happend]
  exact List.mem_append_left _ hs

/-- An opening bracket before a place outside brackets lies in an arbitrary value. -/
theorem OpensAt.inValue (h : (ofToken token).OpensAt i) (hsplit : token.text = closed ++ rest)
    (hclosed : (Nesting.start.after closed).isOutside = true) (hlt : i < Text.byteLength closed) :
    (ofToken token).InValue i '[' := by
  have hplace : (closed ++ rest).HasAt i ['['] := hsplit ▸ h.1
  rcases hplace.of_lt hlt with ⟨before, behind, hbehind, hi⟩
  rw [List.append_assoc] at hbehind
  have hwhole : token.text = before ++ '[' :: (behind ++ rest) := by
    rw [hsplit, hbehind]
    simp
  have hvalue := inValue_of_closed hsplit hclosed hbehind (Or.inr (h.reads hwhole hi))
  rwa [hi] at hvalue

/-- From the last place outside brackets on a token has no arbitrary values. -/
theorem arbitrary_of_staysInside (hsplit : token.text = closed ++ rest)
    (hrest : (Nesting.start.after closed).StaysInside rest) :
    (ofToken token).arbitrary = brackets .start 0 0 closed := by
  rcases exists_brackets_append .start 0 0 closed rest with ⟨opened, happend⟩
  show brackets .start 0 0 token.text = _
  rw [hsplit, happend, brackets_of_staysInside hrest, List.append_nil]

/-- A character that leads the scan into brackets is an opening bracket that is not escaped. -/
theorem opensAt_of_enters {before behind : Text} (hplace : token.text = before ++ c :: behind)
    (hout : (Nesting.start.after before).isOutside = true)
    (henters : ((Nesting.start.after before).step c).isOutside = false) :
    (ofToken token).OpensAt (Text.byteLength before) := by
  rcases Nesting.eq_of_enters hout henters with ⟨rfl, hunescaped⟩
  constructor
  · refine ⟨before, behind, ?_, rfl⟩
    show token.text = _
    rw [hplace]
    simp
  · rwa [Nesting.escaped_after_front hplace] at hunescaped

/-- An arbitrary value starts with an opening bracket that is not escaped. -/
theorem opensAt_of_mem_arbitrary {s : Span} (h : s ∈ (ofToken token).arbitrary) :
    (ofToken token).OpensAt s.start := by
  rcases closes_of_mem_brackets h with ⟨inner, d, behind, -, hcloses, -⟩ |
    ⟨before, c, inner, d, behind, hplace, hout, hcloses, hs, -⟩
  · cases hcloses.isInside
  · rw [hs, Nat.zero_add]
    exact opensAt_of_enters hplace hout hcloses.isInside

/-- The bracket at the last place outside brackets is never closed. -/
theorem leavesOpen_of_staysInside (hsplit : token.text = closed ++ c :: rest)
    (hclosed : (Nesting.start.after closed).isOutside = true)
    (hrest : (Nesting.start.after closed).StaysInside (c :: rest)) :
    (ofToken token).LeavesOpen (Text.byteLength closed) := by
  refine ⟨?_, ?_, ?_⟩
  · exact opensAt_of_enters hsplit hclosed (hrest [c] rest rfl (List.cons_ne_nil _ _))
  · intro j hj hopens
    exact hopens.inValue hsplit hclosed hj
  · intro s hs
    rw [arbitrary_of_staysInside hsplit hrest] at hs
    have hwithin := (@successive_brackets .start 0 0 closed fun _ => Nat.le_refl 0).within s hs
    omega

/-- What is read within brackets in front of a place outside them lies in an arbitrary value, and
else it stands behind that place. -/
theorem inValue_or_behind (hsplit : token.text = closed ++ rest)
    (hclosed : (Nesting.start.after closed).isOutside = true) {before behind : Text}
    (hplace : token.text = before ++ c :: behind)
    (hin : (Nesting.start.after before).isOutside = false) :
    (ofToken token).InValue (Text.byteLength before) c ∨
      Text.byteLength closed < Text.byteLength before := by
  have hne : before ≠ closed := by
    rintro rfl
    rw [hclosed] at hin
    cases hin
  rcases List.append_eq_append_iff.1 (hplace.symm.trans hsplit) with
    ⟨part, hpart, hbehind⟩ | ⟨part, rfl, -⟩
  · cases part with
    | nil => exact absurd (by rw [hpart, List.append_nil]) hne
    | cons d part =>
      obtain ⟨rfl, -⟩ := List.cons.inj hbehind
      exact Or.inl (inValue_of_closed hsplit hclosed hpart (Or.inl hin))
  · have hpos : 0 < Text.byteLength part := Text.byteLength_pos fun hnil => hne (by simp [hnil])
    rw [Text.byteLength_append]
    exact Or.inr (by omega)

/-- A token that the scan leaves within brackets has one that is never closed, and what it reads
within brackets lies in an arbitrary value or behind that bracket. -/
theorem exists_leavesOpen (hopen : (Nesting.start.after token.text).isOutside = false) :
    ∃ o, (ofToken token).LeavesOpen o ∧ ∀ before c behind, token.text = before ++ c :: behind →
      (Nesting.start.after before).isOutside = false →
        (ofToken token).InValue (Text.byteLength before) c ∨ o < Text.byteLength before := by
  -- the bracket opens at the last place outside brackets
  have hstart : Nesting.start.isOutside = true := rfl
  rcases Nesting.exists_last_outside hstart token.text with ⟨closed, rest, hsplit, hclosed, hrest⟩
  cases rest with
  | nil =>
    rw [hsplit, List.append_nil, hclosed] at hopen
    cases hopen
  | cons d rest =>
    refine ⟨Text.byteLength closed, leavesOpen_of_staysInside hsplit hclosed hrest, ?_⟩
    intro before c behind hplace hin
    exact inValue_or_behind hsplit hclosed hplace hin

/-- A token has a bracket that is never closed exactly when the scan ends within brackets. -/
theorem exists_leavesOpen_iff :
    (∃ o, (ofToken token).LeavesOpen o) ↔ (Nesting.start.after token.text).isOutside = false := by
  constructor
  · rintro ⟨o, hleaves⟩
    by_contra hend
    -- else the bracket would lie in an arbitrary value, which would be closed before it
    have hlt : o + 1 ≤ Text.byteLength token.text := hleaves.opens.1.le_byteLength
    rcases hleaves.opens.inValue (List.append_nil _).symm (by simpa using hend) hlt with
      ⟨s, hs, hstart, hstop⟩
    have hbefore := hleaves.unclosed s hs
    have hpos := Char.utf8Size_pos '['
    omega
  · intro hopen
    rcases exists_leavesOpen hopen with ⟨o, hleaves, -⟩
    exact ⟨o, hleaves⟩

end Parts

end Classified

/-! ## Tokens of a class list -/

namespace Token

variable {t : Text} {earlier later : List Token} {token : Token}

/-- A word leaves the scan outside brackets, or else nothing is left behind it. -/
theorem IsWordAt.isOutside {front rest : Text} {c : Char} (h : token.IsWordAt t front c rest) :
    (splitWord (Nesting.start.step c) rest).2 = [] ∨
      (Nesting.start.after token.text).isOutside = true := by
  rw [h.text]
  exact (splitWord_stops _ rest).imp_right And.right

/-- A word to which nothing is left runs to the end. -/
theorem IsWordAt.stop_eq {front rest : Text} {c : Char} (h : token.IsWordAt t front c rest)
    (hend : (splitWord (Nesting.start.step c) rest).2 = []) :
    token.span.stop = Text.byteLength t := by
  have hrest := splitWord_append (Nesting.start.step c) rest
  rw [hend, List.append_nil] at hrest
  show token.start + Text.byteLength token.text = _
  rw [h.whole, ← h.start, h.text, hrest, Text.byteLength_append]

/-- The blanks of a token are read within brackets. -/
theorem IsWordAt.blank {front rest before behind : Text} {c d : Char}
    (h : token.IsWordAt t front c rest) (hplace : token.text = before ++ d :: behind)
    (hblank : isBlank d = true) : (Nesting.start.after before).isOutside = false := by
  rw [h.text] at hplace
  cases before with
  | nil =>
    -- a token does not start with a blank
    obtain ⟨rfl, -⟩ := List.cons.inj hplace
    rw [h.head] at hblank
    cases hblank
  | cons e before =>
    obtain ⟨rfl, hword⟩ := List.cons.inj hplace
    rw [Nesting.after_cons]
    exact isOutside_of_blank hword hblank

/-- In a token the same bytes are escaped as in the class list. -/
theorem IsWordAt.isEscaped_eq {front rest : Text} {c : Char} (h : token.IsWordAt t front c rest)
    {i : Nat} (hi : i ≤ Text.byteLength token.text) :
    isEscaped (Text.bytes t) (token.start + i) = isEscaped (Text.bytes token.text) i := by
  have hwhole : t = front ++ token.text ++ (splitWord (Nesting.start.step c) rest).2 := by
    rw [h.whole, h.text, List.append_assoc, List.cons_append, splitWord_append]
  have hplace : t.HasAt token.start token.text := ⟨front, _, hwhole, h.start⟩
  -- where a token starts, nothing is escaped
  have hclear : isEscaped (Text.bytes t) token.start = false := by
    rw [h.whole, ← h.start, isEscaped_behind, ← Nesting.escaped_after_start, h.fresh]
    rfl
  exact (hplace.isEscaped_eq hclear hi).symm

/-- Splitting a class list and finding the parts of its tokens agree on brackets, although each goes
over its text in a pass of its own. Every blank of a token lies in an arbitrary value, or the token is
the last one, runs to the end and the blank stands behind a bracket that is never closed. In any other
token each opening bracket that is not escaped lies in an arbitrary value, and every arbitrary value
starts with one. It makes no difference whether escapes are read in the token or in the class list. -/
theorem closed_or_runs_to_end (h : split t = earlier ++ token :: later) :
    Pass.split? t = some (earlier ++ token :: later) ∧
    Classified.Pass.classify token = Classified.ofToken token ∧
    (∀ i c, token.text.HasAt i [c] → isBlank c = true →
      (Classified.ofToken token).InValue i c ∨
        (later = [] ∧ token.span.stop = Text.byteLength t ∧
          ∃ o < i, (Classified.ofToken token).LeavesOpen o)) ∧
    (later ≠ [] ∨ token.span.stop ≠ Text.byteLength t →
      ∀ i, (Classified.ofToken token).OpensAt i → (Classified.ofToken token).InValue i '[') ∧
    (∀ s ∈ (Classified.ofToken token).arbitrary, (Classified.ofToken token).OpensAt s.start) ∧
    ∀ i ≤ Text.byteLength token.text,
      isEscaped (Text.bytes t) (token.start + i) = isEscaped (Text.bytes token.text) i := by
  rcases exists_isWordAt h with ⟨front, c, rest, hword, hlast⟩
  refine ⟨(Pass.split?_eq t).trans (congrArg some h), Classified.Pass.classify_eq token, ?_, ?_,
    fun s hs => Classified.opensAt_of_mem_arbitrary hs, fun i hi => hword.isEscaped_eq hi⟩
  · rintro i d ⟨before, behind, hplace, rfl⟩ hblank
    rw [List.append_assoc] at hplace
    have hin := hword.blank hplace hblank
    cases hend : (Nesting.start.after token.text).isOutside with
    | true =>
      -- the whole token is closed
      have hwhole : token.text = token.text ++ [] := (List.append_nil _).symm
      exact Or.inl (Classified.inValue_of_closed hwhole hend hplace (Or.inl hin))
    | false =>
      -- a bracket is left open, so nothing is left behind the token
      rcases Classified.exists_leavesOpen hend with ⟨o, hleaves, hread⟩
      have hnone : (splitWord (Nesting.start.step c) rest).2 = [] := by
        apply hword.isOutside.resolve_right
        rw [hend]
        decide
      rcases hread before d behind hplace hin with hvalue | hlt
      · exact Or.inl hvalue
      · exact Or.inr ⟨hlast hnone, hword.stop_eq hnone, o, hlt, hleaves⟩
  · rintro hmore i hopens
    have hend : (Nesting.start.after token.text).isOutside = true := by
      apply hword.isOutside.resolve_left
      intro hnone
      rcases hmore with hlater | hstop
      · exact hlater (hlast hnone)
      · exact hstop (hword.stop_eq hnone)
    have hwhole : token.text = token.text ++ [] := (List.append_nil _).symm
    have hlt : i + 1 ≤ Text.byteLength token.text := hopens.1.le_byteLength
    exact hopens.inValue hwhole hend hlt

/-- In a list that ends within a bracket the last token keeps a blank behind it. -/
theorem blank_behind_open_bracket :
    split "p-[a b] x[ y".toList = [⟨"p-[a b]".toList, 0⟩] ++ ⟨"x[ y".toList, 8⟩ :: [] ∧
      ∃ o < 2, (Classified.ofToken ⟨"x[ y".toList, 8⟩).LeavesOpen o := by
  have hsplit : split "p-[a b] x[ y".toList =
      [⟨"p-[a b]".toList, 0⟩] ++ ⟨"x[ y".toList, 8⟩ :: [] := by
    decide +kernel
  refine ⟨hsplit, ?_⟩
  have hplace : Text.HasAt "x[ y".toList 2 [' '] := ⟨['x', '['], ['y'], rfl, rfl⟩
  rcases (closed_or_runs_to_end hsplit).2.2.1 2 ' ' hplace (by decide) with
    ⟨s, hs, -⟩ | ⟨-, -, hleaves⟩
  · -- there are no arbitrary values
    have hnone : (Classified.ofToken ⟨"x[ y".toList, 8⟩).arbitrary = [] := by decide
    rw [hnone] at hs
    cases hs
  · exact hleaves

end Token

end ClassHighlight
