import ClassHighlight.Highlight
import ClassHighlight.Proofs.ClassString.Template
import ClassHighlight.Proofs.ClassString.Token
import ClassHighlight.Proofs.Source.Candidate

/-!
# Reading highlights back

The highlights of a document are those of its tokens, each moved to where the token stands. What a
span of a category covers is then read off the document: a utility is a whole token, a variant
ends with a colon, an important mark is an exclamation mark, and an arbitrary value is bracketed.
-/

namespace ClassHighlight

/-! ## The tokens of a document -/

/-- A token moved to the right. -/
def Token.shift (token : Token) (base : Nat) : Token := ⟨token.text, base + token.start⟩

/-- The tokens of a candidate, where they stand in the document. -/
def Candidate.tokens (c : Candidate) : List Token :=
  if c.isTemplate then
    (StaticRun.all c.text).flatMap fun run =>
      (Token.split run.text).map fun token => token.shift (c.base + run.offset)
  else
    (Token.split c.text).map fun token => token.shift c.base

/-- The tokens that a scan looks at. -/
def scannedTokens (t : Text) (cursor? : Option Nat) (mode : Mode) : List Token :=
  ((Source.ofText t).selected mode cursor?).flatMap Candidate.tokens

/-- The spans of a token that stands in a document. -/
def Token.spans (token : Token) (c : Category) : List Span :=
  ((Classified.ofToken token).spans.get c).map fun s => s.shift token.start

namespace Highlights

theorem get_concat (parts : List Highlights) (c : Category) :
    (concat parts).get c = parts.flatMap fun part => part.get c := by
  rw [concat, ByCategory.get_ofFn]

/-- The parts of a token do not depend on where it stands. -/
theorem get_ofToken (base : Nat) (token : Token) (c : Category) :
    (ofToken base token).get c = (token.shift base).spans c := by
  unfold ofToken
  rw [ByCategory.get_map]
  cases c <;> rfl

theorem get_ofClassString (base : Nat) (t : Text) (c : Category) :
    (ofClassString base t).get c =
      ((Token.split t).map fun token => token.shift base).flatMap fun token => token.spans c := by
  rw [ofClassString, get_concat, List.flatMap_map, List.flatMap_map]
  simp only [get_ofToken]

theorem get_ofCandidate (candidate : Candidate) (c : Category) :
    (ofCandidate candidate).get c = candidate.tokens.flatMap fun token => token.spans c := by
  unfold ofCandidate Candidate.tokens
  split
  · rw [get_concat, List.flatMap_map, List.flatMap_assoc]
    simp only [get_ofClassString]
  · exact get_ofClassString _ _ _

end Highlights

/-- The highlights of a document are those of its tokens. -/
theorem get_scan (t : Text) (cursor? : Option Nat) (mode : Mode) (c : Category) :
    (scan t cursor? mode).get c =
      (scannedTokens t cursor? mode).flatMap fun token => token.spans c := by
  unfold scan scannedTokens
  rw [Highlights.get_concat, List.flatMap_map, List.flatMap_assoc]
  simp only [Highlights.get_ofCandidate]

/-! ## Tokens stand in their document -/

/-- What a token of a document is: it stands there, is not empty, and on its own is one token. -/
theorem Token.IsReadFrom.shift {token : Token} {part t : Text} {base : Nat}
    (h : token.IsReadFrom part) (hpart : t.HasAt base part) : (token.shift base).IsReadFrom t :=
  ⟨hpart.trans h.place, h.nonempty, h.alone⟩

theorem Candidate.isReadFrom_of_mem_tokens {c : Candidate} {t : Text} {token : Token}
    (hplace : t.HasAt c.base c.text) (h : token ∈ c.tokens) : token.IsReadFrom t := by
  unfold Candidate.tokens at h
  split at h
  · -- in a template literal the token stands in a run, and the run in the body
    rcases List.mem_flatMap.1 h with ⟨run, hrun, h⟩
    rcases List.mem_map.1 h with ⟨inner, hinner, rfl⟩
    have hat := hplace.trans (StaticRun.hasAt_of_mem_all hrun)
    exact (Token.isReadFrom_of_mem_split hinner).shift hat
  · rcases List.mem_map.1 h with ⟨inner, hinner, rfl⟩
    exact (Token.isReadFrom_of_mem_split hinner).shift hplace

/-- Every token that a scan looks at is read from the document. -/
theorem isReadFrom_of_mem_scannedTokens {t : Text} {cursor? : Option Nat} {mode : Mode}
    {token : Token} (h : token ∈ scannedTokens t cursor? mode) : token.IsReadFrom t := by
  rcases List.mem_flatMap.1 h with ⟨candidate, hcandidate, htoken⟩
  rcases Source.isDelimited_of_mem_selected hcandidate with ⟨stop, hdelimited⟩
  exact Candidate.isReadFrom_of_mem_tokens hdelimited.hasAt htoken

/-! ## Reading spans back -/

/-- A span covers a part of a text. -/
def Span.Reads (s : Span) (t part : Text) : Prop :=
  s.start < s.stop ∧ s.stop ≤ Text.byteLength t ∧ s.slice? t = some part

/-- What the spans of each category cover, and how they lie. -/
structure Highlights.ReadsBack (h : Highlights) (t : Text) : Prop where
  /-- A utility is a token of its own. -/
  utility : ∀ s ∈ h.utility, ∃ part, s.Reads t part ∧ Token.split part = [⟨part, 0⟩]
  /-- A chain of variants starts with its utility, ends in it, and ends with a colon. -/
  variant : ∀ s ∈ h.variant, (∃ part, s.Reads t part ∧ part.getLast? = some ':') ∧
    ∃ u ∈ h.utility, s.start = u.start ∧ s.stop ≤ u.stop
  /-- An important mark starts a utility, or follows the chain of variants that does. -/
  important : ∀ s ∈ h.important, s.Reads t ['!'] ∧
    ∃ u ∈ h.utility, s.start = u.start ∨ ∃ v ∈ h.variant, v.start = u.start ∧ s.start = v.stop
  /-- An arbitrary value lies in a utility and is bracketed. -/
  arbitrary : ∀ s ∈ h.arbitrary,
    (∃ part, s.Reads t part ∧ part.head? = some '[' ∧ part.getLast? = some ']') ∧
      ∃ u ∈ h.utility, u.start ≤ s.start ∧ s.stop ≤ u.stop
  /-- There is at most one chain of variants for each utility. -/
  variant_le : h.variant.length ≤ h.utility.length
  /-- There is at most one important mark for each utility. -/
  important_le : h.important.length ≤ h.utility.length

namespace Token

section Spans

variable {token : Token} {t : Text} {s : Span}

/-- A part of a token, moved to where the token stands, covers that part of the document and lies
within the token. -/
theorem IsReadFrom.reads (h : token.IsReadFrom t) {part : Text}
    (hplace : token.text.HasAt s.start part)
    (hstop : s.stop = s.start + Text.byteLength part) (hne : part ≠ []) :
    (s.shift token.start).Reads t part ∧
      (s.shift token.start).stop ≤ token.start + Text.byteLength token.text := by
  have hat := h.place.trans hplace
  have hpos := Text.byteLength_pos hne
  have hwithin := hplace.le_byteLength
  have hbound := hat.le_byteLength
  refine ⟨⟨?_, ?_, ?_⟩, ?_⟩
  · show s.start + token.start < s.stop + token.start
    omega
  · show s.stop + token.start ≤ _
    omega
  · show Text.slice? t (s.start + token.start) (s.stop + token.start) = some part
    have hslice := hat.slice?
    rw [show token.start + s.start = s.start + token.start by omega] at hslice
    rw [hstop, show s.start + Text.byteLength part + token.start =
      s.start + token.start + Text.byteLength part by omega]
    exact hslice
  · show s.stop + token.start ≤ _
    omega

theorem spans_utility (token : Token) :
    token.spans .utility = [⟨token.start, token.start + Text.byteLength token.text⟩] := by
  show [Span.mk (0 + token.start) (Text.byteLength token.text + token.start)] = _
  rw [Nat.zero_add, Nat.add_comm]

/-- A token has the utility that covers it. -/
theorem mem_spans_utility (token : Token) :
    (⟨token.start, token.start + Text.byteLength token.text⟩ : Span) ∈ token.spans .utility := by
  rw [spans_utility]
  exact List.mem_singleton_self _

/-- The utility of a token covers the token. -/
theorem IsReadFrom.utility (h : token.IsReadFrom t) (hs : s ∈ token.spans .utility) :
    s.Reads t token.text := by
  rw [spans_utility, List.mem_singleton] at hs
  have hpos := Text.byteLength_pos h.nonempty
  rw [hs]
  exact ⟨by simp only; omega, h.place.le_byteLength, h.place.slice?⟩

theorem length_spans_variant_le (token : Token) : (token.spans .variant).length ≤ 1 := by
  unfold spans
  rw [List.length_map]
  show (Classified.ofToken token).variantSpan?.toList.length ≤ 1
  cases (Classified.ofToken token).variantSpan? <;> simp

theorem length_spans_important_le (token : Token) : (token.spans .important).length ≤ 1 := by
  unfold spans
  rw [List.length_map]
  show (Classified.ofToken token).importantSpan?.toList.length ≤ 1
  cases (Classified.ofToken token).importantSpan? <;> simp

/-- The chain of variants of a token starts with it, and ends with a colon. -/
theorem IsReadFrom.variant (h : token.IsReadFrom t) (hs : s ∈ token.spans .variant) :
    s.start = token.start ∧ s.stop ≤ token.start + Text.byteLength token.text ∧
      ∃ part, s.Reads t part ∧ part.getLast? = some ':' := by
  rcases List.mem_map.1 hs with ⟨inner, hinner, rfl⟩
  have hspan := Option.mem_toList.1 (show inner ∈ (Classified.ofToken token).variantSpan?.toList
    from hinner)
  unfold Classified.variantSpan? at hspan
  split at hspan
  · cases hspan
  · rename_i hlength
    rcases Classified.variantLength_spec token hlength with ⟨chain, hplace, hcolon, heq⟩
    cases hspan
    have hne : chain ≠ [] := by
      rintro rfl
      cases hcolon
    obtain ⟨hreads, hle⟩ := h.reads (s := ⟨0, (Classified.ofToken token).variantLength⟩) hplace
      (by simp only; omega) hne
    exact ⟨Nat.zero_add _, hle, chain, hreads, hcolon⟩

/-- The important mark of a token starts it, or follows its chain of variants. -/
theorem IsReadFrom.important (h : token.IsReadFrom t) (hs : s ∈ token.spans .important) :
    s.Reads t ['!'] ∧ (s.start = token.start ∨
      ∃ v ∈ token.spans .variant, v.start = token.start ∧ s.start = v.stop) := by
  rcases List.mem_map.1 hs with ⟨inner, hinner, rfl⟩
  have hspan := Option.mem_toList.1 (show inner ∈ (Classified.ofToken token).importantSpan?.toList
    from hinner)
  unfold Classified.importantSpan? at hspan
  split at hspan
  · rename_i himportant
    cases hspan
    have hplace := Classified.isImportant_spec token himportant
    refine ⟨(h.reads hplace rfl (by simp)).1, ?_⟩
    by_cases hlength : (Classified.ofToken token).variantLength = 0
    · -- without variants the mark is the first character
      left
      show (Classified.ofToken token).variantLength + token.start = token.start
      omega
    · right
      have hvariant : (⟨0, (Classified.ofToken token).variantLength⟩ : Span) ∈
          (Classified.ofToken token).variantSpan?.toList := by
        unfold Classified.variantSpan?
        rw [if_neg hlength]
        exact List.mem_singleton_self _
      exact ⟨_, List.mem_map_of_mem hvariant, Nat.zero_add _, rfl⟩
  · cases hspan

/-- The arbitrary values of a token lie in it and are bracketed. -/
theorem IsReadFrom.arbitrary (h : token.IsReadFrom t) (hs : s ∈ token.spans .arbitrary) :
    token.start ≤ s.start ∧ s.stop ≤ token.start + Text.byteLength token.text ∧
      ∃ part, s.Reads t part ∧ part.head? = some '[' ∧ part.getLast? = some ']' := by
  rcases List.mem_map.1 hs with ⟨inner, hinner, rfl⟩
  rcases Classified.isBracketed_of_mem_arbitrary hinner with ⟨value, hplace, hstop, hopen, hclose⟩
  have hne : value ≠ [] := by
    rintro rfl
    cases hopen
  rcases h.reads hplace hstop hne with ⟨hreads, hle⟩
  exact ⟨Nat.le_add_left _ _, hle, value, hreads, hopen, hclose⟩

end Spans

end Token

/-- Where each item has at most as many parts of one kind as of another, so have all together. -/
theorem length_flatMap_le {α β : Type} {f g : α → List β} {l : List α}
    (h : ∀ a ∈ l, (f a).length ≤ (g a).length) : (l.flatMap f).length ≤ (l.flatMap g).length := by
  induction l with
  | nil => exact Nat.le_refl _
  | cons a rest ih =>
    have hhead := h a List.mem_cons_self
    have htail := ih fun b hb => h b (List.mem_cons_of_mem _ hb)
    rw [List.flatMap_cons, List.flatMap_cons, List.length_append, List.length_append]
    omega

/-- The spans of every scan read back as what they stand for. -/
theorem scan_readsBack (t : Text) (cursor? : Option Nat) (mode : Mode) :
    (scan t cursor? mode).ReadsBack t := by
  -- every span is one of a token that is read from the document
  have hmem : ∀ c s, s ∈ (scan t cursor? mode).get c →
      ∃ token, token ∈ scannedTokens t cursor? mode ∧ token.IsReadFrom t ∧ s ∈ token.spans c := by
    intro c s hs
    rw [get_scan] at hs
    rcases List.mem_flatMap.1 hs with ⟨token, htoken, hspan⟩
    exact ⟨token, htoken, isReadFrom_of_mem_scannedTokens htoken, hspan⟩
  have hscan : ∀ c s token, token ∈ scannedTokens t cursor? mode → s ∈ token.spans c →
      s ∈ (scan t cursor? mode).get c := by
    intro c s token htoken hspan
    rw [get_scan]
    exact List.mem_flatMap.2 ⟨token, htoken, hspan⟩
  -- each token has one utility
  have hlength : ∀ c, (∀ token : Token, (token.spans c).length ≤ 1) →
      ((scan t cursor? mode).get c).length ≤ ((scan t cursor? mode).get .utility).length := by
    intro c hle
    rw [get_scan, get_scan]
    apply length_flatMap_le
    intro token _
    rw [Token.spans_utility]
    exact hle token
  constructor
  · intro s hs
    rcases hmem .utility s hs with ⟨token, -, hread, hspan⟩
    exact ⟨token.text, hread.utility hspan, hread.alone⟩
  · intro s hs
    rcases hmem .variant s hs with ⟨token, htoken, hread, hspan⟩
    rcases hread.variant hspan with ⟨hstart, hle, hpart⟩
    exact ⟨hpart, _, hscan .utility _ token htoken token.mem_spans_utility, hstart, hle⟩
  · intro s hs
    rcases hmem .important s hs with ⟨token, htoken, hread, hspan⟩
    rcases hread.important hspan with ⟨hreads, hplace⟩
    refine ⟨hreads, _, hscan .utility _ token htoken token.mem_spans_utility, ?_⟩
    rcases hplace with hstart | ⟨v, hv, hvstart, hstart⟩
    · exact Or.inl hstart
    · exact Or.inr ⟨v, hscan .variant v token htoken hv, hvstart, hstart⟩
  · intro s hs
    rcases hmem .arbitrary s hs with ⟨token, htoken, hread, hspan⟩
    rcases hread.arbitrary hspan with ⟨hge, hle, hpart⟩
    exact ⟨hpart, _, hscan .utility _ token htoken token.mem_spans_utility, hge, hle⟩
  · exact hlength .variant Token.length_spans_variant_le
  · exact hlength .important Token.length_spans_important_le

end ClassHighlight
