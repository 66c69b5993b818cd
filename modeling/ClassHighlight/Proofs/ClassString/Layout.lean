import ClassHighlight.Proofs.ClassString.Token
import ClassHighlight.Proofs.ClassString.TokenPass

/-!
# The layout of a class list

A class list is its tokens and the blanks around them, and nothing else. `IsLayout` says where each
token stands and that only blanks stand between, before and behind the tokens. So the characters of
the list that are no blanks are those of its tokens, each of them once and in the same order.
-/

namespace ClassHighlight

namespace Token

/-- A text that starts at an offset is blanks, a token, blanks again, and so on up to blanks at its
end. A token starts with a character that is no blank, and a blank or the end follows it. -/
inductive IsLayout : (offset : Nat) → Text → List Token → Prop
  | blanks {offset : Nat} {gap : Text} :
      (∀ c ∈ gap, isBlank c = true) → IsLayout offset gap []
  | token {offset : Nat} {gap word rest : Text} {c : Char} {tokens : List Token} :
      (∀ c ∈ gap, isBlank c = true) → isBlank c = false → rest.head?.all isBlank = true →
      IsLayout (offset + Text.byteLength gap + Text.byteLength (c :: word)) rest tokens →
      IsLayout offset (gap ++ c :: word ++ rest)
        (⟨c :: word, offset + Text.byteLength gap⟩ :: tokens)

namespace IsLayout

variable {offset : Nat} {t : Text} {tokens : List Token}

/-- A blank in front goes to the blanks before the first token. -/
theorem cons_blank {c : Char} (hc : isBlank c = true)
    (h : IsLayout (offset + c.utf8Size) t tokens) : IsLayout offset (c :: t) tokens := by
  have hgap : ∀ gap : Text, (∀ d ∈ gap, isBlank d = true) →
      ∀ d ∈ c :: gap, isBlank d = true := by
    intro gap hblank d hd
    rcases List.mem_cons.1 hd with rfl | hd
    · exact hc
    · exact hblank d hd
  cases h with
  | blanks hblank => exact .blanks (hgap _ hblank)
  | @token _ gap word rest d tokens hblank hd hrest hlater =>
    rw [Nat.add_assoc offset, ← Text.byteLength_cons] at hlater ⊢
    exact .token (hgap gap hblank) hd hrest hlater

/-- No token starts before the text. -/
theorem le_start (h : IsLayout offset t tokens) : ∀ token ∈ tokens, offset ≤ token.start := by
  induction h with
  | blanks =>
    intro token hin
    cases hin
  | token _ _ _ _ ih =>
    intro token hin
    rcases List.mem_cons.1 hin with rfl | hin
    · exact Nat.le_add_right _ _
    · have := ih token hin
      omega

/-- In a text that starts with a blank, all tokens start further on. -/
theorem lt_start (h : IsLayout offset t tokens) (hfirst : t.head?.all isBlank = true) :
    ∀ token ∈ tokens, offset < token.start := by
  cases h with
  | blanks =>
    intro token hin
    cases hin
  | @token _ gap word rest c tokens hblank hc hrest hlater =>
    have hgap : gap ≠ [] := by
      rintro rfl
      rw [List.nil_append, List.cons_append, List.head?_cons, Option.all_some, hc] at hfirst
      cases hfirst
    have hpos := Text.byteLength_pos hgap
    intro token hin
    rcases List.mem_cons.1 hin with rfl | hin
    · exact Nat.lt_add_of_pos_right hpos
    · have := hlater.le_start token hin
      omega

/-- Each token ends before the next one starts. -/
theorem pairwise (h : IsLayout offset t tokens) :
    tokens.Pairwise fun a b => a.span.stop < b.start := by
  induction h with
  | blanks => exact .nil
  | token _ _ hrest hlater ih =>
    rw [List.pairwise_cons]
    constructor
    · intro token hin
      exact hlater.lt_start hrest token hin
    · exact ih

/-- The characters that are no blanks are those of the tokens. -/
theorem filter_eq (h : IsLayout offset t tokens) :
    t.filter (fun c => !isBlank c) =
      tokens.flatMap fun token => token.text.filter fun c => !isBlank c := by
  have hgap : ∀ gap : Text, (∀ c ∈ gap, isBlank c = true) →
      gap.filter (fun c => !isBlank c) = [] := by
    intro gap hblank
    rw [List.filter_eq_nil_iff]
    intro c hc
    rw [hblank c hc]
    decide
  induction h with
  | blanks hblank => exact hgap _ hblank
  | token hblank _ _ _ ih =>
    rw [List.filter_append, List.filter_append, hgap _ hblank, ih, List.flatMap_cons]
    rfl

end IsLayout

/-- The tokens of the part of a class list that starts at an offset are laid out in it. -/
theorem isLayout_splitFrom (offset : Nat) (t : Text) : IsLayout offset t (splitFrom offset t) := by
  fun_induction splitFrom offset t with
  | case1 offset => exact .blanks fun c hc => absurd hc List.not_mem_nil
  | case2 offset c rest hblank ih => exact ih.cons_blank hblank
  | case3 offset c rest hblank word ih =>
    have hnext : (splitWord (Nesting.start.step c) rest).2.head?.all isBlank = true := by
      rcases splitWord_stops (Nesting.start.step c) rest with hend | ⟨hnext, -⟩
      · rw [hend]
        rfl
      · -- a blank outside brackets has ended the word
        rcases Option.any_eq_true _ _ |>.1 hnext with ⟨d, hd, hblank⟩
        rw [hd]
        exact hblank
    have hlayout : IsLayout offset ([] ++ word ++ (splitWord (Nesting.start.step c) rest).2)
        (⟨word, offset⟩ :: splitFrom (offset + Text.byteLength word)
          (splitWord (Nesting.start.step c) rest).2) :=
      .token (fun c hc => absurd hc List.not_mem_nil) (by simpa using hblank) hnext ih
    have hwhole : [] ++ word ++ (splitWord (Nesting.start.step c) rest).2 = c :: rest :=
      congrArg (c :: ·) (splitWord_append _ rest)
    rwa [hwhole] at hlayout

/-- Splitting loses nothing but blanks: the tokens and the blanks around them are the class list,
with a blank between any two tokens, and a token split on its own is its only token. A single pass
finds the same tokens, although it does not start afresh with any of them. -/
theorem split_lossless (t : Text) :
    Pass.split? t = some (split t) ∧
    IsLayout 0 t (split t) ∧
    t.filter (fun c => !isBlank c) =
      ((split t).flatMap fun token => token.text.filter fun c => !isBlank c) ∧
    ((split t).Pairwise fun a b => a.span.stop < b.start) ∧
    ∀ token ∈ split t, token.IsReadFrom t ∧ ∃ front c rest, token.IsWordAt t front c rest := by
  have hlayout : IsLayout 0 t (split t) := isLayout_splitFrom 0 t
  refine ⟨Pass.split?_eq t, hlayout, hlayout.filter_eq, hlayout.pairwise, ?_⟩
  intro token hin
  constructor
  · exact isReadFrom_of_mem_split hin
  · rcases List.append_of_mem hin with ⟨earlier, later, hsplit⟩
    rcases exists_isWordAt hsplit with ⟨front, c, rest, hword, -⟩
    exact ⟨front, c, rest, hword⟩

/-- An escaped bracket keeps no blank in its token, and on its own it is a token again. -/
theorem split_lossless_escaped :
    ⟨"\\[".toList, 11⟩ ∈ split "é-[a b]\u2003\\[ c".toList ∧
      split "\\[".toList = [⟨"\\[".toList, 0⟩] ∧
      Text.HasAt "é-[a b]\u2003\\[ c".toList 11 "\\[".toList := by
  have hsplit : split "é-[a b]\u2003\\[ c".toList =
      [⟨"é-[a b]".toList, 0⟩, ⟨"\\[".toList, 11⟩, ⟨"c".toList, 14⟩] := by
    decide +kernel
  have hin : ⟨"\\[".toList, 11⟩ ∈ split "é-[a b]\u2003\\[ c".toList := by
    rw [hsplit]
    exact List.mem_cons_of_mem _ List.mem_cons_self
  have hread := ((split_lossless "é-[a b]\u2003\\[ c".toList).2.2.2.2 _ hin).1
  exact ⟨hin, hread.alone, hread.place⟩

end Token

end ClassHighlight
