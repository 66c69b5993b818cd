import ClassHighlight.Proofs.ClassString.Order
import ClassHighlight.Proofs.Highlight
import ClassHighlight.Proofs.Source.Order

/-!
# The order of highlights

In each category the spans of a candidate lie one behind the other, and candidates are taken in
document order. Together the spans are in order unless an attribute and a literal overlap: then the
spans of both are mixed in the document, but not in the list.
-/

namespace ClassHighlight

open ClassHighlight.Span (Successive)

/-! ## Candidates -/

namespace Token

/-- In each category the spans of a token lie one behind the other in it. -/
theorem successive_spans {token : Token} (hne : token.text ≠ []) (c : Category) :
    Successive token.span.start token.span.stop (token.spans c) := by
  have h := (Classified.successive_spans token hne c).shift token.start
  rw [Nat.zero_add, Nat.add_comm] at h
  exact h

/-- The tokens of a class list that starts at `base` lie one behind the other. -/
theorem successive_shift (base : Nat) (t : Text) : Successive base (base + Text.byteLength t)
    (((split t).map fun token => token.shift base).map span) := by
  have h := (successive_splitFrom 0 t).shift base
  rw [Nat.zero_add, Nat.zero_add, Nat.add_comm, List.map_map] at h
  rw [List.map_map]
  have hspan : span ∘ (fun token => token.shift base) = (fun s => s.shift base) ∘ span := by
    funext token
    simp only [Function.comp_apply, span, Token.shift, Span.shift, Span.mk.injEq]
    omega
  rw [hspan]
  exact h

end Token

namespace Candidate

variable (c : Candidate)

theorem text_ne_nil_of_mem_tokens {token : Token} (h : token ∈ c.tokens) : token.text ≠ [] := by
  unfold tokens at h
  split at h
  · rcases List.mem_flatMap.1 h with ⟨run, -, hin⟩
    rcases List.mem_map.1 hin with ⟨inner, hinner, rfl⟩
    exact (Token.isReadFrom_of_mem_split hinner).nonempty
  · rcases List.mem_map.1 h with ⟨inner, hinner, rfl⟩
    exact (Token.isReadFrom_of_mem_split hinner).nonempty

/-- The tokens of a candidate lie one behind the other. -/
theorem successive_tokens : Successive c.span.start c.span.stop (c.tokens.map Token.span) := by
  unfold tokens
  split
  · have h := (StaticRun.successive_all c.text).shift c.base
    rw [Nat.zero_add, Nat.add_comm, List.map_map] at h
    rw [List.map_flatMap]
    apply h.flatMap
    intro run _
    show Successive (run.offset + c.base) (run.offset + Text.byteLength run.text + c.base) _
    rw [Nat.add_right_comm, Nat.add_comm run.offset]
    exact Token.successive_shift (c.base + run.offset) run.text
  · exact Token.successive_shift c.base c.text

/-- In each category the spans of a candidate lie one behind the other. -/
theorem successive_spans (category : Category) :
    Successive c.span.start c.span.stop ((Highlights.ofCandidate c).get category) := by
  rw [Highlights.get_ofCandidate]
  apply c.successive_tokens.flatMap
  intro token htoken
  exact Token.successive_spans (c.text_ne_nil_of_mem_tokens htoken) category

end Candidate

/-! ## Documents -/

/-- In each category the spans are in the order of their starts. -/
def Highlights.InOrder (h : Highlights) : Prop :=
  ∀ category, (h.get category).Pairwise fun s s' => s.start ≤ s'.start

/-- In each category the spans of one part of a document start before those of another. -/
def Highlights.Precede (h h' : Highlights) : Prop :=
  ∀ category, ∀ s ∈ h.get category, ∀ s' ∈ h'.get category, s.start ≤ s'.start

namespace Candidate

/-- Two candidates have a byte in common. -/
def Overlaps (a b : Candidate) : Prop := a.base < b.span.stop ∧ b.base < a.span.stop

theorem IsBefore.base_le {a b : Candidate} (h : a.IsBefore b) : a.base ≤ b.base := by
  rcases h with hlt | ⟨heq, -⟩
  · exact Nat.le_of_lt hlt
  · exact Nat.le_of_eq heq

/-- A literal that comes before another candidate has a smaller base. -/
theorem IsBefore.base_lt {a b : Candidate} (h : a.IsBefore b) (hkind : a.kind = .argument) :
    a.base < b.base := by
  rcases h with hlt | ⟨-, hattribute, -⟩
  · exact hlt
  · rw [hkind] at hattribute
    cases hattribute

/-- The spans of candidates in document order are in order if the candidates do not overlap. -/
theorem IsBefore.precede {a b : Candidate} (h : a.IsBefore b) (hnot : ¬ a.Overlaps b) :
    (Highlights.ofCandidate a).Precede (Highlights.ofCandidate b) := by
  intro category s hs s' hs'
  have hfirst := (a.successive_spans category).within s hs
  have hsecond := (b.successive_spans category).within s' hs'
  have hbase := h.base_le
  have ha : a.span.start = a.base := rfl
  have hb : b.span.start = b.base := rfl
  unfold Overlaps at hnot
  omega

end Candidate

/-- The spans of a document are those of the candidates that are selected. -/
theorem get_scan_eq_flatMap (t : Text) (cursor? : Option Nat) (mode : Mode) (c : Category) :
    (scan t cursor? mode).get c = ((Source.ofText t).selected mode cursor?).flatMap
      fun candidate => (Highlights.ofCandidate candidate).get c := by
  rw [scan, Highlights.get_concat, List.flatMap_map]

/-- The spans of a document are in order exactly when those of each two candidates are that follow
each other in the order of candidates. -/
theorem inOrder_scan_iff_pairwise (t : Text) (cursor? : Option Nat) :
    (scan t cursor? .full).InOrder ↔ (Source.ofText t).candidates.Pairwise fun a b =>
      (Highlights.ofCandidate a).Precede (Highlights.ofCandidate b) := by
  have hget : ∀ category, (scan t cursor? .full).get category =
      (Source.ofText t).candidates.flatMap fun c => (Highlights.ofCandidate c).get category :=
    get_scan_eq_flatMap t cursor? .full
  unfold Highlights.InOrder
  simp only [hget, List.pairwise_flatMap]
  constructor
  · intro h
    rw [List.pairwise_iff_forall_sublist]
    intro a b hab category
    exact List.pairwise_iff_forall_sublist.1 (h category).2 hab
  · intro h category
    refine ⟨?_, h.imp fun hprecede => hprecede category⟩
    intro c _
    exact (c.successive_spans category).pairwise_start_le

/-- The spans of a document are in order exactly when those of each attribute and each literal are
that overlap: the spans of the one with the smaller base, or of the attribute if the bases are the
same, start before those of the other. In particular they are in order if no attribute overlaps a
literal. -/
theorem inOrder_scan_iff (t : Text) (cursor? : Option Nat) :
    (scan t cursor? .full).InOrder ↔
      ∀ a ∈ (Source.ofText t).attributes, ∀ l ∈ (Source.ofText t).arguments, a.Overlaps l →
        if a.base ≤ l.base then (Highlights.ofCandidate a).Precede (Highlights.ofCandidate l)
        else (Highlights.ofCandidate l).Precede (Highlights.ofCandidate a) := by
  rw [inOrder_scan_iff_pairwise]
  have horder := Source.pairwise_candidates t
  constructor
  · intro h a ha l hl _
    have hne : a ≠ l := by
      rintro rfl
      have hkind := (Source.isDelimited_of_mem_attributes ha).1
      rw [Source.kind_of_mem_arguments hl] at hkind
      cases hkind
    -- one of the two comes first, and its spans start before those of the other
    rcases or_swap_of_pairwise (horder.and h) ((Source.mem_candidates t).2 (Or.inl ha))
      ((Source.mem_candidates t).2 (Or.inr hl)) hne with
      ⟨⟨hbefore, -⟩, hprecede⟩ | ⟨⟨hbefore, -⟩, hprecede⟩
    · rw [if_pos hbefore.base_le]
      exact hprecede
    · rw [if_neg (Nat.not_le.2 (hbefore.base_lt (Source.kind_of_mem_arguments hl)))]
      exact hprecede
  · intro h
    apply (List.Pairwise.and_mem.1 horder).imp
    rintro a b ⟨ha, hb, hbefore, hsame⟩
    -- candidates of one kind do not overlap
    by_cases hoverlaps : a.Overlaps b
    · have hdiffer : a.kind ≠ b.kind := by
        intro hkind
        have hlt := hsame hkind
        have := hoverlaps.2
        omega
      rw [Source.mem_candidates] at ha hb
      rcases ha with ha | ha
      · rcases hb with hb | hb
        · exact absurd ((Source.isDelimited_of_mem_attributes ha).1.trans
            (Source.isDelimited_of_mem_attributes hb).1.symm) hdiffer
        · have hprecede := h a ha b hb hoverlaps
          rw [if_pos hbefore.base_le] at hprecede
          exact hprecede
      · rcases hb with hb | hb
        · have hprecede := h b hb a ha hoverlaps.symm
          rw [if_neg (Nat.not_le.2 (hbefore.base_lt (Source.kind_of_mem_arguments ha)))]
            at hprecede
          exact hprecede
        · exact absurd ((Source.kind_of_mem_arguments ha).trans
            (Source.kind_of_mem_arguments hb).symm) hdiffer
    · exact hbefore.precede hoverlaps

/-- A literal in an attribute comes after all of the attribute, also after what stands behind it. -/
theorem not_inOrder_scan_literal_in_attribute :
    (scan "class=\"\x7bcn('a')\x7d b\"".toList none .full).utility =
      [⟨7, 16⟩, ⟨17, 18⟩, ⟨12, 13⟩] ∧
    ¬ (scan "class=\"\x7bcn('a')\x7d b\"".toList none .full).InOrder := by
  have hattributes : (Source.ofText "class=\"\x7bcn('a')\x7d b\"".toList).attributes =
      [⟨"\x7bcn('a')\x7d b".toList, 7, .attribute, .double⟩] := by
    decide +kernel
  have harguments : (Source.ofText "class=\"\x7bcn('a')\x7d b\"".toList).arguments =
      [⟨['a'], 12, .argument, .single⟩] := by
    decide +kernel
  have hselected : (Source.ofText "class=\"\x7bcn('a')\x7d b\"".toList).selected .full none =
      [⟨"\x7bcn('a')\x7d b".toList, 7, .attribute, .double⟩, ⟨['a'], 12, .argument, .single⟩] := by
    show Source.candidates _ = _
    rw [Source.candidates, hattributes, harguments]
    exact List.mergeSort_of_pairwise (by decide)
  have hattribute : Token.split "\x7bcn('a')\x7d b".toList =
      [⟨"\x7bcn('a')\x7d".toList, 0⟩, ⟨['b'], 10⟩] := by
    -- a word, a blank and a word
    rw [Token.split, show "\x7bcn('a')\x7d b".toList = '\x7b' :: "cn('a')\x7d b".toList from rfl,
      Token.splitFrom, if_neg (by decide)]
    show ⟨"\x7bcn('a')\x7d".toList, 0⟩ :: Token.splitFrom 9 [' ', 'b'] = _
    rw [Token.splitFrom, if_pos (by decide), Token.splitFrom, if_neg (by decide)]
    show _ :: ⟨['b'], 10⟩ :: Token.splitFrom 11 [] = _
    rw [Token.splitFrom]
  have hliteral : Token.split ['a'] = [⟨['a'], 0⟩] := Token.split_word (by decide) []
  have hutility : (scan "class=\"\x7bcn('a')\x7d b\"".toList none .full).get .utility =
      [⟨7, 16⟩, ⟨17, 18⟩, ⟨12, 13⟩] := by
    rw [get_scan, scannedTokens, hselected, List.flatMap_cons, List.flatMap_singleton,
      Candidate.tokens, if_neg (by decide), hattribute, Candidate.tokens, if_neg (by decide),
      hliteral]
    rfl
  refine ⟨hutility, ?_⟩
  intro horder
  have hsorted := horder .utility
  rw [hutility] at hsorted
  revert hsorted
  decide

end ClassHighlight
