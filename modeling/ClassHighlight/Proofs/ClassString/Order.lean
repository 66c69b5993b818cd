import ClassHighlight.Proofs.ClassString.Template
import ClassHighlight.Proofs.ClassString.Token

/-!
# The parts of a class list follow each other

Splitting goes through its text from the start to the end. So the static runs of a template literal
lie one behind the other, and so do the tokens of a class list and, in each category, the parts of a
token. Lists of spans that lie in the pieces of such a list can be joined.
-/

namespace ClassHighlight

namespace Span

/-- Spans of at least one byte that lie one behind the other between two offsets. -/
structure Successive (start stop : Nat) (spans : List Span) : Prop where
  /-- Each span lies between the offsets and is not empty. -/
  within : ∀ s ∈ spans, start ≤ s.start ∧ s.start < s.stop ∧ s.stop ≤ stop
  /-- Each span ends before the later ones start. -/
  apart : spans.Pairwise fun s s' => s.stop ≤ s'.start

namespace Successive

variable {start stop : Nat} {spans : List Span}

theorem nil : Successive start stop [] :=
  ⟨fun _ hs => absurd hs List.not_mem_nil, .nil⟩

/-- A span in front of others that start behind it. -/
theorem cons {s : Span} (hstart : start ≤ s.start) (hne : s.start < s.stop) (hstop : s.stop ≤ stop)
    (h : Successive s.stop stop spans) : Successive start stop (s :: spans) := by
  constructor
  · intro s' hs'
    rcases List.mem_cons.1 hs' with rfl | hlater
    · exact ⟨hstart, hne, hstop⟩
    · have := h.within s' hlater
      omega
  · rw [List.pairwise_cons]
    exact ⟨fun s' hs' => (h.within s' hs').1, h.apart⟩

theorem singleton {s : Span} (hstart : start ≤ s.start) (hne : s.start < s.stop)
    (hstop : s.stop ≤ stop) : Successive start stop [s] :=
  .cons hstart hne hstop .nil

theorem mono {start' stop' : Nat} (h : Successive start stop spans) (hstart : start' ≤ start)
    (hstop : stop ≤ stop') : Successive start' stop' spans := by
  refine ⟨?_, h.apart⟩
  intro s hs
  have := h.within s hs
  omega

theorem shift (h : Successive start stop spans) (base : Nat) :
    Successive (start + base) (stop + base) (spans.map fun s => s.shift base) := by
  constructor
  · intro s hs
    rcases List.mem_map.1 hs with ⟨inner, hinner, rfl⟩
    have := h.within inner hinner
    unfold Span.shift
    simp only
    omega
  · rw [List.pairwise_map]
    apply h.apart.imp
    intro s s' hle
    exact Nat.add_le_add_right hle base

/-- Successive spans are in the order of their starts. -/
theorem pairwise_start_le (h : Successive start stop spans) :
    spans.Pairwise fun s s' => s.start ≤ s'.start := by
  apply (List.Pairwise.and_mem.1 h.apart).imp
  rintro s s' ⟨hs, -, hle⟩
  have := h.within s hs
  omega

/-- What lies in successive pieces is itself successive. -/
theorem flatMap {α : Type} {extent : α → Span} {inner : α → List Span} {items : List α}
    (h : Successive start stop (items.map extent))
    (hinner : ∀ a ∈ items, Successive (extent a).start (extent a).stop (inner a)) :
    Successive start stop (items.flatMap inner) := by
  constructor
  · intro s hs
    rcases List.mem_flatMap.1 hs with ⟨a, ha, hin⟩
    have houter := h.within _ (List.mem_map_of_mem ha)
    have := (hinner a ha).within s hin
    omega
  · rw [List.pairwise_flatMap]
    refine ⟨fun a ha => (hinner a ha).apart, ?_⟩
    have hapart := List.pairwise_map.1 h.apart
    apply (List.Pairwise.and_mem.1 hapart).imp
    rintro a b ⟨ha, hb, hle⟩ s hs s' hs'
    have hfirst := (hinner a ha).within s hs
    have hsecond := (hinner b hb).within s' hs'
    omega

end Successive

end Span

open ClassHighlight.Span (Successive)

/-! ## Tokens and static runs -/

/-- The tokens of a class list lie one behind the other. -/
theorem Token.successive_splitFrom (offset : Nat) (t : Text) :
    Successive offset (offset + Text.byteLength t) ((splitFrom offset t).map span) := by
  fun_induction splitFrom offset t with
  | case1 offset => exact .nil
  | case2 offset c rest hblank ih =>
    -- a blank is passed over
    rw [Text.byteLength_cons]
    exact ih.mono (by omega) (by omega)
  | case3 offset c rest hblank word ih =>
    have hlength : Text.byteLength word +
        Text.byteLength (splitWord (Nesting.start.step c) rest).2 = Text.byteLength (c :: rest) := by
      rw [← Text.byteLength_append]
      congr 1
      exact congrArg (c :: ·) (splitWord_append _ rest)
    have hword : 0 < Text.byteLength word := Text.byteLength_pos (List.cons_ne_nil _ _)
    rw [List.map_cons]
    refine .cons (Nat.le_refl _) ?_ ?_ (ih.mono (Nat.le_refl _) (by omega))
    · show offset < offset + Text.byteLength word
      omega
    · show offset + Text.byteLength word ≤ _
      omega

namespace StaticRun

/-- The extent of a static run in the body of its literal. -/
def span (run : StaticRun) : Span := ⟨run.offset, run.offset + Text.byteLength run.text⟩

/-- The static runs of a template literal lie one behind the other. -/
theorem successive_ofPieces (offset : Nat) (pieces : List TemplatePiece) :
    Successive offset (offset + Text.byteLength (pieces.flatMap TemplatePiece.text))
      ((ofPieces offset pieces).map span) := by
  induction pieces generalizing offset with
  | nil => exact .nil
  | cons piece rest ih =>
    have hlater := ih (offset + Text.byteLength piece.text)
    rw [Nat.add_assoc, ← Text.byteLength_append, ← List.flatMap_cons] at hlater
    have hskip := hlater.mono (Nat.le_add_right offset (Text.byteLength piece.text))
      (Nat.le_refl _)
    cases piece with
    | interpolation t => exact hskip
    | fixed t =>
      rw [ofPieces]
      by_cases hblank : (t.all isBlank) = true
      · rw [if_pos hblank]
        exact hskip
      · rw [if_neg hblank, List.map_cons]
        have hpos : 0 < Text.byteLength t := by
          apply Text.byteLength_pos
          rintro rfl
          exact hblank rfl
        refine .cons (Nat.le_refl _) ?_ ?_ hlater
        · show offset < offset + Text.byteLength t
          omega
        · show offset + Text.byteLength t ≤ _
          rw [List.flatMap_cons, Text.byteLength_append]
          show _ ≤ offset + (Text.byteLength t + _)
          omega

theorem successive_all (t : Text) :
    Successive 0 (Text.byteLength t) ((all t).map span) := by
  have h := successive_ofPieces 0 (TemplatePiece.split t)
  rw [TemplatePiece.flatMap_split, Nat.zero_add] at h
  exact h

end StaticRun

/-! ## Parts of tokens -/

namespace Classified

/-- The outermost brackets of a token lie one behind the other. -/
theorem successive_brackets {n : Nesting} {opened offset : Nat} (t : Text)
    (hopened : n.isOutside = false → opened ≤ offset) :
    Successive (if n.isOutside then offset else opened) (offset + Text.byteLength t)
      (brackets n opened offset t) := by
  induction t generalizing n opened offset with
  | nil => exact .nil
  | cons c rest ih =>
    have hpos := c.utf8Size_pos
    rw [brackets, Text.byteLength_cons, ← Nat.add_assoc]
    have hlater := @ih (n.step c) (if n.isOutside then offset else opened) (offset + c.utf8Size)
    cases hout : n.isOutside with
    | true =>
      -- brackets may open here
      rw [hout] at hlater
      have hrest := hlater fun _ => Nat.le_add_right _ _
      refine hrest.mono ?_ (Nat.le_refl _)
      show offset ≤ if (n.step c).isOutside then offset + c.utf8Size else offset
      split <;> omega
    | false =>
      have hle := hopened hout
      rw [hout] at hlater
      have hrest := hlater fun _ => Nat.le_add_right_of_le hle
      cases hin : (n.step c).isOutside with
      | true =>
        -- they close here
        rw [hin] at hrest
        exact .cons (Nat.le_refl _) (by simp only; omega) (Nat.le_add_right _ _) hrest
      | false =>
        rw [hin] at hrest
        exact hrest

variable (token : Token)

/-- The chain of variants lies in its token. -/
theorem variantLength_le : (ofToken token).variantLength ≤ Text.byteLength token.text := by
  by_cases hnone : (ofToken token).variantLength = 0
  · omega
  · rcases variantLength_spec token hnone with ⟨chain, hplace, -, heq⟩
    have := hplace.le_byteLength
    omega

/-- In each category the parts of a token lie one behind the other. -/
theorem successive_spans (hne : token.text ≠ []) (c : Category) :
    Successive 0 (Text.byteLength token.text) ((ofToken token).spans.get c) := by
  cases c with
  | variant =>
    show Successive _ _ (ofToken token).variantSpan?.toList
    unfold variantSpan?
    split
    · exact .nil
    · exact .singleton (Nat.le_refl _) (Nat.pos_of_ne_zero ‹_›) (variantLength_le token)
  | important =>
    show Successive _ _ (ofToken token).importantSpan?.toList
    unfold importantSpan?
    split
    · have hplace := isImportant_spec token ‹_›
      exact .singleton (Nat.zero_le _) (Nat.lt_succ_self _) hplace.le_byteLength
    · exact .nil
  | arbitrary =>
    have h := @successive_brackets .start 0 0 token.text (fun _ => Nat.le_refl _)
    rw [Nat.zero_add] at h
    exact h
  | utility => exact .singleton (Nat.le_refl _) (Text.byteLength_pos hne) (Nat.le_refl _)

end Classified

end ClassHighlight
