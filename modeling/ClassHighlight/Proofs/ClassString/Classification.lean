import Mathlib.Order.Bounds.Basic
import ClassHighlight.Proofs.ClassString.Brackets
import ClassHighlight.Proofs.ClassString.BracketCount

/-!
# What the parts of a token are

`IsFaithful` says what the parts of a token have to be, without the scan that finds them: arbitrary
values are groups of balanced brackets, the chain of variants ends with the last colon outside them
and before a bracket that is never closed, and the important mark stands behind the chain. The scan
finds parts for which this holds, and there are no others.
-/

namespace ClassHighlight

open ClassHighlight.Span (Successive)

/-- A group of brackets: from an opening bracket to the first place where as many brackets are
closed as were opened. -/
structure IsGroup (bs : List UInt8) (s : Span) : Prop where
  /-- It starts with an opening bracket that is not escaped. -/
  opens : bs[s.start]? = some '['.toUInt8 ∧ isEscaped bs s.start = false
  /-- It ends behind a closing bracket that is neither escaped nor quoted. -/
  closes : ∃ i, s.stop = i + 1 ∧ BracketAt bs s.start ']' i
  /-- Before its end a bracket is open. -/
  open_before : ∀ k, s.start < k → k < s.stop →
    bracketCount bs s.start ']' k < bracketCount bs s.start '[' k
  /-- At its end none is. -/
  balanced : bracketCount bs s.start ']' s.stop = bracketCount bs s.start '[' s.stop

namespace IsGroup

variable {bs : List UInt8} {s s' : Span}

theorem start_lt_stop (h : IsGroup bs s) : s.start < s.stop := by
  rcases h.closes with ⟨i, hstop, hbracket⟩
  have := hbracket.1
  omega

/-- The group of an opening bracket is determined. -/
theorem eq_of_start_eq (h : IsGroup bs s) (h' : IsGroup bs s') (hstart : s.start = s'.start) :
    s = s' := by
  have hbalanced := h.balanced
  have hbalanced' := h'.balanced
  have hstop : s.stop = s'.stop := by
    rcases Nat.lt_trichotomy s.stop s'.stop with hlt | heq | hlt
    · have := h'.open_before s.stop (hstart ▸ h.start_lt_stop) hlt
      rw [← hstart] at this
      omega
    · exact heq
    · have := h.open_before s'.stop (hstart ▸ h'.start_lt_stop) hlt
      rw [hstart] at this
      omega
  cases s
  cases s'
  simp_all

end IsGroup

namespace Classified

/-! ## Arbitrary values -/

section Arbitrary

variable {token : Token} {behind : Text} {s : Span} {o : Nat}

/-- An arbitrary value goes from a place outside brackets up to the next one. -/
theorem exists_value (h : s ∈ (ofToken token).arbitrary) :
    ∃ closed inner behind, token.text = closed ++ '[' :: inner ++ ']' :: behind ∧
      (Nesting.start.after closed).isOutside = true ∧
      (Nesting.start.after closed).StaysInside ('[' :: inner) ∧
      ((Nesting.start.after (closed ++ '[' :: inner)).step ']').isOutside = true ∧
      s.start = Text.byteLength closed ∧ s.stop = Text.byteLength (closed ++ '[' :: inner) + 1 := by
  rcases closes_of_mem_brackets h with ⟨inner, d, behind, -, hcloses, -⟩ |
    ⟨closed, c, inner, d, behind, hsplit, hout, hcloses, hstart, hstop⟩
  · cases hcloses.isInside
  · obtain rfl := (Nesting.eq_of_enters hout hcloses.isInside).1
    obtain rfl := Nesting.eq_of_leaves (hcloses.inside inner [] (List.append_nil inner).symm)
      hcloses.leaves
    rw [Nat.zero_add] at hstart
    refine ⟨closed, inner, behind, ?_, hout, ?_, ?_, hstart, ?_⟩
    · rw [hsplit, List.append_assoc]
      rfl
    · intro first later hfirst hne
      cases first with
      | nil => exact absurd rfl hne
      | cons d first =>
        obtain ⟨rfl, hinner⟩ := List.cons.inj hfirst
        exact hcloses.inside first later hinner
    · rw [Nesting.after_append]
      exact hcloses.leaves
    · rw [hstop, hstart]
      simp only [Text.byteLength_append, Text.byteLength_cons, Text.byteLength_nil, Nat.add_assoc]
      rfl

/-- An arbitrary value is a group of brackets. -/
theorem isGroup_of_mem_arbitrary (h : s ∈ (ofToken token).arbitrary) :
    IsGroup (Text.bytes token.text) s := by
  have hopens := opensAt_of_mem_arbitrary h
  rcases exists_value h with ⟨closed, inner, behind, hsplit, hout, hin, hleaves, hstart, hstop⟩
  have hend : (Nesting.start.after (closed ++ '[' :: inner)).isOutside = false := by
    rw [Nesting.after_append]
    exact hin _ [] (List.append_nil _).symm (List.cons_ne_nil _ _)
  have hfree := Nesting.free_of_leaves hend hleaves
  have hcounts := Nesting.counts_after hsplit hout hin
  have hat : token.text.HasAt (Text.byteLength (closed ++ '[' :: inner)) [']'] :=
    ⟨closed ++ '[' :: inner, behind, by rw [hsplit]; simp, rfl⟩
  constructor
  case opens => exact ⟨(Text.hasAt_iff_getElem? (by decide)).1 hopens.1, hopens.2⟩
  case closes =>
    refine ⟨_, hstop, ?_, (Text.hasAt_iff_getElem? (by decide)).1 hat, ?_, ?_⟩
    · rw [hstart, Text.byteLength_append]
      exact Nat.le_add_right _ _
    · rw [← Nesting.escaped_after_front hsplit]
      exact hfree.1
    · rw [hstart, ← hcounts.quote_eq]
      exact hfree.2
  case open_before =>
    intro k hlt hle
    rw [hstart] at hlt ⊢
    exact Nesting.count_lt_of_staysInside hsplit hout hin hlt (by omega)
  case balanced =>
    have hlast := hcounts.step hsplit (by rw [Text.byteLength_append]; omega) (Or.inl hend)
      (k := 0) (Char.utf8Size_pos _)
    rw [hstart, hstop, ← hlast.depth_eq, Nesting.isOutside_iff.1 hleaves, Nat.zero_add]

/-! ## Brackets that stay open -/

/-- At most one bracket is the outermost one that stays open. -/
theorem LeavesOpen.eq {parts : Classified} {o o' : Nat} (h : parts.LeavesOpen o)
    (h' : parts.LeavesOpen o') : o = o' := by
  have hle : ∀ {o o' : Nat}, parts.LeavesOpen o → parts.LeavesOpen o' → o' ≤ o := by
    intro o o' h h'
    by_contra hlt
    -- else the first one would lie in an arbitrary value
    rcases h'.outermost o (by omega) h.opens with ⟨s, hs, hstart, hstop⟩
    have hbefore := h.unclosed s hs
    have hpos := Char.utf8Size_pos '['
    omega
  exact Nat.le_antisymm (hle h' h) (hle h h')

/-- Behind a bracket that stays open more brackets were opened than closed. -/
theorem LeavesOpen.count_lt (h : (ofToken token).LeavesOpen o) {k : Nat} (hlt : o < k)
    (hle : k ≤ Text.byteLength token.text) :
    bracketCount (Text.bytes token.text) o ']' k < bracketCount (Text.bytes token.text) o '[' k := by
  have hstart : Nesting.start.isOutside = true := rfl
  rcases Nesting.exists_last_outside hstart token.text with ⟨closed, rest, hsplit, hout, hrest⟩
  have hend := exists_leavesOpen_iff.1 ⟨o, h⟩
  cases rest with
  | nil =>
    rw [hsplit, List.append_nil, hout] at hend
    cases hend
  | cons c rest =>
    -- the bracket opens at the last place outside brackets
    obtain rfl := h.eq (leavesOpen_of_staysInside hsplit hout hrest)
    have hsplit' : token.text = closed ++ c :: rest ++ [] := by rw [hsplit, List.append_nil]
    exact Nesting.count_lt_of_staysInside hsplit' hout hrest hlt (by rwa [← hsplit])

/-- An opening bracket lies in an arbitrary value, or some bracket stays open from there on or from
an earlier place. -/
theorem OpensAt.covered {i : Nat} (h : (ofToken token).OpensAt i) :
    (ofToken token).InValue i '[' ∨ ∃ o, (ofToken token).LeavesOpen o ∧ o ≤ i := by
  have hlt : i + 1 ≤ Text.byteLength token.text := h.1.le_byteLength
  by_cases hend : (Nesting.start.after token.text).isOutside = true
  · exact Or.inl (h.inValue (List.append_nil _).symm hend hlt)
  · rcases exists_leavesOpen_iff.2 (by simpa using hend) with ⟨o, ho⟩
    by_cases hle : o ≤ i
    · exact Or.inr ⟨o, ho, hle⟩
    · exact Or.inl (ho.outermost i (by omega) h)

/-! ## What stands outside brackets -/

/-- Within an arbitrary value, behind its opening bracket, the scan is within brackets. -/
theorem InValue.isInside {before : Text} {c : Char} (hplace : token.text = before ++ c :: behind)
    (hc : c ≠ '[') (h : (ofToken token).InValue (Text.byteLength before) c) :
    (Nesting.start.after before).isOutside = false := by
  have hpos := c.utf8Size_pos
  rcases h with ⟨s, hs, hle, hlt⟩
  rcases exists_value hs with ⟨closed, inner, after, hsplit, -, hin, -, hstart, hstop⟩
  have hwhole : before ++ c :: behind = closed ++ '[' :: inner ++ ']' :: after :=
    hplace.symm.trans hsplit
  -- the place lies between the two brackets
  rcases Text.prefix_of_byteLength_le hwhole (by omega) with ⟨later, hlater⟩
  rw [List.append_assoc] at hwhole
  rcases Text.prefix_of_byteLength_le hwhole.symm (by omega) with ⟨first, rfl⟩
  rw [List.append_assoc] at hlater hwhole
  have hinner : '[' :: inner = first ++ later := (List.append_cancel_left hlater).symm
  have hne : first ≠ [] := by
    rintro rfl
    exact hc (List.cons.inj (List.append_cancel_left hwhole)).1
  rw [Nesting.after_append]
  exact hin first later hinner hne

/-- Behind a bracket that stays open the scan is within brackets. -/
theorem LeavesOpen.isInside (h : (ofToken token).LeavesOpen o) {before : Text}
    (hplace : token.text = before ++ behind) (hlt : o < Text.byteLength before) :
    (Nesting.start.after before).isOutside = false := by
  by_contra hout
  -- else the bracket would lie in an arbitrary value
  rcases h.opens.inValue hplace (by simpa using hout) hlt with ⟨s, hs, hstart, hstop⟩
  have hbefore := h.unclosed s hs
  have hpos := Char.utf8Size_pos '['
  omega

/-- The scan reads a character that is no opening bracket outside brackets exactly if the character
lies in no arbitrary value and before a bracket that stays open. -/
theorem isOutside_after_iff {before : Text} {c : Char} (hplace : token.text = before ++ c :: behind)
    (hc : c ≠ '[') :
    (Nesting.start.after before).isOutside = true ↔
      ¬ (ofToken token).InValue (Text.byteLength before) c ∧
        ∀ o, (ofToken token).LeavesOpen o → Text.byteLength before < o := by
  constructor
  · intro hout
    refine ⟨?_, ?_⟩
    · intro hvalue
      rw [hvalue.isInside hplace hc] at hout
      cases hout
    · intro o ho
      by_contra hle
      have hne : o ≠ Text.byteLength before := by
        rintro rfl
        exact hc (Text.HasAt.eq_of_front (hplace ▸ ho.opens.1))
      rw [ho.isInside hplace (by omega)] at hout
      cases hout
  · rintro ⟨hfree, hopen⟩
    by_contra hnot
    have hin : (Nesting.start.after before).isOutside = false := by simpa using hnot
    by_cases hend : (Nesting.start.after token.text).isOutside = true
    · exact hfree (inValue_of_closed (List.append_nil _).symm hend hplace (Or.inl hin))
    · rcases exists_leavesOpen (by simpa using hend) with ⟨o, ho, hread⟩
      rcases hread before c behind hplace hin with hvalue | hlt
      · exact hfree hvalue
      · have := hopen o ho
        omega

end Arbitrary

/-! ## The chain of variants -/

/-- A colon at an offset of a token ends a variant: it is not escaped, lies in no arbitrary value and
stands before a bracket that stays open. -/
structure EndsVariant (parts : Classified) (i : Nat) : Prop where
  /-- A colon stands there. -/
  colon : parts.token.text.HasAt i [':']
  /-- It is not escaped. -/
  unescaped : isEscaped (Text.bytes parts.token.text) i = false
  /-- It lies in no arbitrary value. -/
  free : ¬ parts.InValue i ':'
  /-- It stands before a bracket that stays open. -/
  before_open : ∀ o, parts.LeavesOpen o → i < o

/-- The scan reads a colon at an offset, outside brackets and not escaped. -/
def ReadsColon (t : Text) (i : Nat) : Prop :=
  ∃ before behind, t = before ++ ':' :: behind ∧ Text.byteLength before = i ∧
    (Nesting.start.after before).isOutside = true ∧
    (Nesting.start.after before).escaped = false

/-- Which colons end variants depends on the text and the arbitrary values alone. -/
theorem EndsVariant.congr {parts parts' : Classified} {i : Nat} (h : parts.EndsVariant i)
    (htoken : parts.token = parts'.token) (harbitrary : parts.arbitrary = parts'.arbitrary) :
    parts'.EndsVariant i := by
  cases parts
  cases parts'
  subst htoken harbitrary
  exact ⟨h.colon, h.unescaped, h.free, fun o ho =>
    h.before_open o ⟨ho.opens, ho.outermost, ho.unclosed⟩⟩

theorem endsVariant_iff {token : Token} {i : Nat} :
    (ofToken token).EndsVariant i ↔ ReadsColon token.text i := by
  constructor
  · rintro ⟨⟨before, behind, hsplit, rfl⟩, hunescaped, hfree, hopen⟩
    have hplace : token.text = before ++ ':' :: behind := by
      rw [show token.text = _ from hsplit, List.append_assoc]
      rfl
    refine ⟨before, behind, hplace, rfl, ?_, ?_⟩
    · exact (isOutside_after_iff hplace (by decide)).2 ⟨hfree, hopen⟩
    · rw [Nesting.escaped_after_front hplace]
      exact hunescaped
  · rintro ⟨before, behind, hplace, rfl, hout, hunescaped⟩
    rcases (isOutside_after_iff hplace (by decide)).1 hout with ⟨hfree, hopen⟩
    rw [Nesting.escaped_after_front hplace] at hunescaped
    refine ⟨⟨before, behind, ?_, rfl⟩, hunescaped, hfree, hopen⟩
    show token.text = _
    rw [hplace]
    simp

theorem afterLastColon_concat (n : Nesting) (last offset : Nat) (t : Text) (c : Char) :
    afterLastColon n last offset (t ++ [c]) =
      if c == ':' && (n.after t).isOutside && !(n.after t).escaped then
        offset + Text.byteLength (t ++ [c])
      else afterLastColon n last offset t := by
  induction t generalizing n last offset with
  | nil => rfl
  | cons d t ih =>
    rw [List.cons_append, afterLastColon, ih, afterLastColon, Text.byteLength_cons, Nat.add_assoc]
    rfl

theorem readsColon_concat {t : Text} {c : Char} {i : Nat} :
    ReadsColon (t ++ [c]) i ↔ ReadsColon t i ∨
      (c = ':' ∧ (Nesting.start.after t).isOutside = true ∧
        (Nesting.start.after t).escaped = false) ∧ i = Text.byteLength t := by
  constructor
  · rintro ⟨before, behind, hsplit, rfl, hread⟩
    rcases List.eq_nil_or_concat behind with rfl | ⟨behind, d, rfl⟩
    · obtain ⟨rfl, hc⟩ := List.append_inj' hsplit rfl
      obtain rfl := (List.cons.inj hc).1
      exact Or.inr ⟨⟨rfl, hread⟩, rfl⟩
    · rw [List.concat_eq_append, ← List.cons_append, ← List.append_assoc] at hsplit
      exact Or.inl ⟨before, behind, List.append_inj_left' hsplit rfl, rfl, hread⟩
  · rintro (⟨before, behind, rfl, hi, hread⟩ | ⟨⟨rfl, hread⟩, rfl⟩)
    · exact ⟨before, behind ++ [c], by simp, hi, hread⟩
    · exact ⟨t, [], rfl, rfl, hread⟩

/-- The scan keeps the place behind the last colon that it has read. -/
theorem afterLastColon_cases (t : Text) :
    (afterLastColon .start 0 0 t = 0 ∧ ∀ i, ¬ ReadsColon t i) ∨
      ∃ i, afterLastColon .start 0 0 t = i + 1 ∧ IsGreatest {i | ReadsColon t i} i := by
  induction t using List.reverseRecOn with
  | nil =>
    left
    refine ⟨rfl, ?_⟩
    rintro i ⟨before, behind, hsplit, -⟩
    cases before <;> cases hsplit
  | append_singleton t c ih =>
    rw [afterLastColon_concat]
    simp only [readsColon_concat]
    by_cases hread : c = ':' ∧ (Nesting.start.after t).isOutside = true ∧
        (Nesting.start.after t).escaped = false
    · -- the character is such a colon, behind all others
      right
      rw [if_pos (by simpa [and_assoc] using hread)]
      refine ⟨Text.byteLength t, ?_, Or.inr ⟨hread, rfl⟩, ?_⟩
      · rw [hread.1, Nat.zero_add, Text.byteLength_append]
        rfl
      · rintro i (⟨before, behind, rfl, rfl, -⟩ | ⟨-, rfl⟩)
        · rw [Text.byteLength_append]
          exact Nat.le_add_right _ _
        · exact Nat.le_refl _
    · rw [if_neg (by simpa [and_assoc] using hread)]
      simp only [hread, false_and, or_false]
      exact ih

/-- The chain of variants ends behind the last colon that ends a variant. -/
theorem variantLength_cases (token : Token) :
    ((ofToken token).variantLength = 0 ∧ ∀ i, ¬ (ofToken token).EndsVariant i) ∨
      ∃ i, (ofToken token).variantLength = i + 1 ∧
        IsGreatest {i | (ofToken token).EndsVariant i} i := by
  simp only [endsVariant_iff]
  exact afterLastColon_cases token.text

/-- No arbitrary value reaches over the end of the chain of variants. -/
theorem variantLength_apart {token : Token} {s : Span} (h : s ∈ (ofToken token).arbitrary) :
    s.stop ≤ (ofToken token).variantLength ∨ (ofToken token).variantLength ≤ s.start := by
  rcases variantLength_cases token with ⟨hnone, -⟩ | ⟨i, hlast, hcolon, -⟩
  · exact Or.inr (by omega)
  · by_contra hover
    refine hcolon.free ⟨s, h, by omega, ?_⟩
    show i + 1 ≤ s.stop
    omega

/-! ## The important mark -/

/-- The important mark lies in no arbitrary value. -/
theorem important_apart {token : Token} {s : Span} (h : s ∈ (ofToken token).arbitrary)
    (himportant : (ofToken token).isImportant = true) :
    s.stop ≤ (ofToken token).variantLength ∨ (ofToken token).variantLength < s.start := by
  rcases variantLength_apart h with hbefore | hbehind
  · exact Or.inl hbefore
  · right
    apply Nat.lt_of_le_of_ne hbehind
    intro heq
    -- a bracket stands where the value starts
    have hmark := (isImportant_iff token).1 himportant
    have hbracket := (isGroup_of_mem_arbitrary h).opens.1
    rw [heq, hbracket] at hmark
    revert hmark
    decide

/-! ## Faithful parts -/

/-- The parts of a token are those that its text has. -/
structure IsFaithful (parts : Classified) : Prop where
  /-- The arbitrary values lie one behind the other in the token. -/
  arbitrary_successive : Successive 0 (Text.byteLength parts.token.text) parts.arbitrary
  /-- Each of them is a group of brackets. -/
  arbitrary_group : ∀ s ∈ parts.arbitrary, IsGroup (Text.bytes parts.token.text) s
  /-- Each opening bracket that is not escaped lies in one of them, unless a bracket stays open from
  there on or from an earlier place. -/
  opens_covered : ∀ i, parts.OpensAt i → parts.InValue i '[' ∨ ∃ o, parts.LeavesOpen o ∧ o ≤ i
  /-- Behind a bracket that stays open more brackets were opened than closed. -/
  open_after : ∀ o, parts.LeavesOpen o → ∀ k, o < k → k ≤ Text.byteLength parts.token.text →
    bracketCount (Text.bytes parts.token.text) o ']' k <
      bracketCount (Text.bytes parts.token.text) o '[' k
  /-- The chain of variants ends behind the last colon that ends a variant, if there is one. -/
  variantLength_eq : (parts.variantLength = 0 ∧ ∀ i, ¬ parts.EndsVariant i) ∨
    ∃ i, parts.variantLength = i + 1 ∧ IsGreatest {i | parts.EndsVariant i} i
  /-- No arbitrary value reaches over the end of the chain. -/
  variant_apart : ∀ s ∈ parts.arbitrary,
    s.stop ≤ parts.variantLength ∨ parts.variantLength ≤ s.start
  /-- There is an important mark exactly if an exclamation mark stands behind the chain. -/
  important_iff : parts.isImportant = true ↔
    (Text.bytes parts.token.text)[parts.variantLength]? = some '!'.toUInt8
  /-- It lies in no arbitrary value. -/
  important_apart : parts.isImportant = true → ∀ s ∈ parts.arbitrary,
    s.stop ≤ parts.variantLength ∨ parts.variantLength < s.start

theorem isFaithful_ofToken (token : Token) : (ofToken token).IsFaithful where
  arbitrary_successive := by
    have h := @successive_brackets .start 0 0 token.text fun _ => Nat.le_refl 0
    rwa [Nat.zero_add] at h
  arbitrary_group := fun _ => isGroup_of_mem_arbitrary
  opens_covered := fun _ => OpensAt.covered
  open_after := fun _ ho _ => ho.count_lt
  variantLength_eq := variantLength_cases token
  variant_apart := fun _ => variantLength_apart
  important_iff := isImportant_iff token
  important_apart := fun himportant _ hs => important_apart hs himportant

namespace IsFaithful

variable {parts parts' : Classified}

/-- Two faithful classifications of a token that agree on the arbitrary values before a place agree
on one that starts there. -/
theorem mem_of_agree (h : parts.IsFaithful) (h' : parts'.IsFaithful)
    (htoken : parts.token = parts'.token) {s : Span}
    (hagree : ∀ s', s'.start < s.start → (s' ∈ parts.arbitrary ↔ s' ∈ parts'.arbitrary))
    (hs : s ∈ parts.arbitrary) : s ∈ parts'.arbitrary := by
  have hgroup := h.arbitrary_group s hs
  have hwithin := h.arbitrary_successive.within s hs
  have hpos := Char.utf8Size_pos '['
  have hopens : parts.OpensAt s.start :=
    ⟨(Text.hasAt_iff_getElem? (by decide)).2 hgroup.opens.1, hgroup.opens.2⟩
  have hopens' : parts'.OpensAt s.start := by
    rw [OpensAt, ← htoken]
    exact hopens
  rcases h'.opens_covered s.start hopens' with ⟨s', hs', hle, hlt⟩ | ⟨o, ho, hle⟩
  · -- an arbitrary value of the other one holds the bracket, and starts with it
    rcases Nat.eq_or_lt_of_le hle with heq | hbefore
    · have hgroup' := h'.arbitrary_group s' hs'
      rw [← htoken] at hgroup'
      rwa [hgroup.eq_of_start_eq hgroup' heq.symm]
    · have hmem := (hagree s' hbefore).2 hs'
      have hsame : s' = s := eq_of_apart id h.arbitrary_successive.apart hmem hs
        (j := s.start) (by rw [Span.contains_iff]; exact ⟨hle, by simp only [id]; omega⟩)
        (by rw [Span.contains_iff]; exact ⟨Nat.le_refl _, hwithin.2.1⟩)
      rw [hsame] at hbefore
      omega
  · -- else a bracket of the other one would stay open there or before
    exfalso
    rcases Nat.eq_or_lt_of_le hle with rfl | hbefore
    · have hopen := h'.open_after _ ho s.stop hwithin.2.1 (by rw [← htoken]; exact hwithin.2.2)
      rw [← htoken, hgroup.balanced] at hopen
      omega
    · have hearlier : parts.OpensAt o := by
        rw [OpensAt, htoken]
        exact ho.opens
      rcases h.opens_covered o hearlier with ⟨s', hs', hle', hlt'⟩ | ⟨o', ho', hle'⟩
      · have := ho.unclosed s' ((hagree s' (by omega)).1 hs')
        omega
      · have := ho'.unclosed s hs
        omega

/-- The text of a token determines its parts. -/
theorem eq_of_token_eq (h : parts.IsFaithful) (h' : parts'.IsFaithful)
    (htoken : parts.token = parts'.token) : parts = parts' := by
  have hmem : ∀ m s, s.start = m → (s ∈ parts.arbitrary ↔ s ∈ parts'.arbitrary) := by
    intro m
    induction m using Nat.strong_induction_on with
    | _ m ih =>
      rintro s rfl
      have hagree := fun s' hlt => ih s'.start hlt s' rfl
      exact ⟨h.mem_of_agree h' htoken hagree,
        h'.mem_of_agree h htoken.symm fun s' hlt => (hagree s' hlt).symm⟩
  have hascending : ∀ {parts : Classified}, parts.IsFaithful →
      parts.arbitrary.Pairwise fun s s' => s.start < s'.start := by
    intro parts h
    apply (List.Pairwise.and_mem.1 h.arbitrary_successive.apart).imp
    rintro s s' ⟨hs, -, hle⟩
    have := (h.arbitrary_successive.within s hs).2.1
    omega
  have harbitrary := eq_of_ascending Span.start (hascending h) (hascending h') fun s =>
    hmem s.start s rfl
  have hvariant : parts.variantLength = parts'.variantLength := by
    have hends : ∀ i, parts.EndsVariant i ↔ parts'.EndsVariant i := fun i =>
      ⟨fun hi => hi.congr htoken harbitrary, fun hi => hi.congr htoken.symm harbitrary.symm⟩
    have hlength := h.variantLength_eq
    simp only [hends] at hlength
    rcases hlength with ⟨hzero, hnone⟩ | ⟨i, hi, hlast⟩
    · rcases h'.variantLength_eq with ⟨hzero', -⟩ | ⟨i, -, hi, -⟩
      · rw [hzero, hzero']
      · exact absurd hi (hnone i)
    · rcases h'.variantLength_eq with ⟨-, hnone⟩ | ⟨i', hi', hlast'⟩
      · exact absurd hlast.1 (hnone i)
      · rw [hi, hi', hlast.unique hlast']
  have himportant : parts.isImportant = parts'.isImportant := by
    rw [Bool.eq_iff_iff, h.important_iff, h'.important_iff, htoken, hvariant]
  cases parts
  cases parts'
  simp_all

end IsFaithful

/-- The scan finds the parts of a token, and its text has no others: the arbitrary values are groups
of balanced brackets, one behind the other; the chain of variants ends behind the last colon that is
not escaped, outside of them and before a bracket that stays open; and the important mark stands
behind the chain. No arbitrary value reaches over the end of the chain or holds the mark. A single
pass over the bytes finds the same parts. -/
theorem ofToken_faithful (token : Token) :
    Pass.classify token = ofToken token ∧
      (ofToken token).IsFaithful ∧
      ∀ parts : Classified, parts.token = token → parts.IsFaithful → parts = ofToken token := by
  refine ⟨Pass.classify_eq token, isFaithful_ofToken token, ?_⟩
  rintro parts rfl h
  exact h.eq_of_token_eq (isFaithful_ofToken parts.token) rfl

/-- A quoted bracket, an escaped one and one that stays open, with a colon behind each. -/
theorem ofToken_faithful_open :
    ofToken ⟨"a:[b:']'c]:\\[d:!e-[f:g".toList, 0⟩ =
      ⟨⟨"a:[b:']'c]:\\[d:!e-[f:g".toList, 0⟩, 15, true, [⟨2, 10⟩]⟩ ∧
    (⟨⟨"a:[b:']'c]:\\[d:!e-[f:g".toList, 0⟩, 15, true, [⟨2, 10⟩]⟩ : Classified).IsFaithful := by
  have hparts : ofToken ⟨"a:[b:']'c]:\\[d:!e-[f:g".toList, 0⟩ =
      ⟨⟨"a:[b:']'c]:\\[d:!e-[f:g".toList, 0⟩, 15, true, [⟨2, 10⟩]⟩ := by
    decide
  have hfaithful := (ofToken_faithful ⟨"a:[b:']'c]:\\[d:!e-[f:g".toList, 0⟩).2.1
  rw [hparts] at hfaithful
  exact ⟨hparts, hfaithful⟩

end Classified

end ClassHighlight
