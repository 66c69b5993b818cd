import ClassHighlight.Proofs.ClassString.TemplateSearch
import ClassHighlight.Proofs.HighlightOrder

/-!
# Interpolations are not highlighted

The static runs of a template literal lie beside its interpolations. What is highlighted of a literal
lies in its static runs, so it does not touch an interpolation.
-/

namespace ClassHighlight

open TemplatePiece (IsDivision)

/-- A byte of the text that pieces make up belongs to an interpolation. -/
def TemplatePiece.IsInterpolated (pieces : List TemplatePiece) (i : Nat) : Prop :=
  ∃ earlier inner later, pieces = earlier ++ .interpolation inner :: later ∧
    Text.byteLength (earlier.flatMap text) ≤ i ∧
    i < Text.byteLength (earlier.flatMap text) + Text.byteLength inner

/-- A byte of a static run does not belong to an interpolation. -/
theorem StaticRun.IsAmong.not_isInterpolated {run : StaticRun} {pieces : List TemplatePiece} {i : Nat}
    (h : run.IsAmong pieces) (hle : run.offset ≤ i)
    (hlt : i < run.offset + Text.byteLength run.text) :
    ¬ TemplatePiece.IsInterpolated pieces i := by
  rintro ⟨before, inner, behind, hpieces, hstart, hstop⟩
  rcases h with ⟨earlier, later, hrun, hoffset, -⟩
  rw [hrun] at hpieces
  -- one of the two pieces comes before the other one
  rcases List.append_eq_append_iff.1 hpieces with ⟨part, rfl, hpart⟩ | ⟨part, rfl, hpart⟩
  · cases part with
    | nil => cases hpart
    | cons piece part =>
      obtain ⟨rfl, -⟩ := List.cons.inj hpart
      rw [List.flatMap_append, Text.byteLength_append, List.flatMap_cons, Text.byteLength_append]
        at hstart
      have htext : (TemplatePiece.fixed run.text).text = run.text := rfl
      rw [htext] at hstart
      omega
  · cases part with
    | nil => cases hpart
    | cons piece part =>
      obtain ⟨rfl, -⟩ := List.cons.inj hpart
      rw [List.flatMap_append, Text.byteLength_append, List.flatMap_cons, Text.byteLength_append]
        at hoffset
      have htext : (TemplatePiece.interpolation inner).text = inner := rfl
      rw [htext] at hoffset
      omega

/-- What is highlighted of a template literal lies in one of its static runs. -/
theorem Candidate.exists_run_of_mem_highlights {c : Candidate} (hc : c.isTemplate = true)
    {category : Category} {s : Span} (hs : s ∈ (Highlights.ofCandidate c).get category) :
    ∃ run ∈ StaticRun.all c.text, c.base + run.offset ≤ s.start ∧
      s.stop ≤ c.base + run.offset + Text.byteLength run.text := by
  rw [Highlights.get_ofCandidate] at hs
  rcases List.mem_flatMap.1 hs with ⟨token, htoken, hspan⟩
  have hinner := (Token.successive_spans (c.text_ne_nil_of_mem_tokens htoken) category).within s hspan
  rw [tokens, if_pos hc] at htoken
  rcases List.mem_flatMap.1 htoken with ⟨run, hrun, hin⟩
  have houter := (Token.successive_shift (c.base + run.offset) run.text).within _
    (List.mem_map_of_mem hin)
  exact ⟨run, hrun, by omega, by omega⟩

/-- The body of a template literal has one division into fixed texts without an opening delimiter and
interpolations up to their first closing brace. The static runs are the fixed texts of this division
with more than blanks in them, each at its offset and in order, and nothing that is highlighted of
a literal covers a byte of an interpolation. Reading the body with two cursors ends, with these
runs, after at most half as many rounds as it has bytes, and one. -/
theorem StaticRun.all_exact (body : Text) :
    (∃! pieces, IsDivision body pieces) ∧
    (∀ pieces, IsDivision body pieces →
      (∀ run, run ∈ all body ↔ run.IsAmong pieces) ∧
      ∀ c : Candidate, c.text = body → c.isTemplate = true → ∀ category,
        ∀ s ∈ (Highlights.ofCandidate c).get category, ∀ i, s.start ≤ i → i < s.stop →
          ∃ k, i = c.base + k ∧ ¬ TemplatePiece.IsInterpolated pieces k) ∧
    ((all body).Pairwise fun run later => run.offset < later.offset) ∧
    ∀ n, Text.byteLength body < 2 * n → Search.runFor? body n Search.initial = some (all body) := by
  refine ⟨⟨_, TemplatePiece.isDivision_iff.2 rfl, fun _ => TemplatePiece.isDivision_iff.1⟩, ?_, ?_,
    fun n => Search.runFor?_initial⟩
  · intro pieces hpieces
    rw [TemplatePiece.isDivision_iff] at hpieces
    subst hpieces
    refine ⟨fun run => mem_all_iff, ?_⟩
    rintro c rfl hc category s hs i hstart hstop
    rcases c.exists_run_of_mem_highlights hc hs with ⟨run, hrun, hle, hlt⟩
    refine ⟨i - c.base, by omega, ?_⟩
    exact (mem_all_iff.1 hrun).not_isInterpolated (by omega) (by omega)
  · have hsuccessive := successive_all body
    have hapart := List.pairwise_map.1 hsuccessive.apart
    apply (List.Pairwise.and_mem.1 hapart).imp
    rintro run later ⟨hrun, -, hle⟩
    have hne := (hsuccessive.within _ (List.mem_map_of_mem hrun)).2.1
    exact Nat.lt_of_lt_of_le hne hle

/-- An escaped delimiter, a dollar sign before another one, and an interpolation without an end. -/
theorem StaticRun.all_exact_unclosed :
    IsDivision "a\\$\x7bb\x7d $$\x7bc\x7d $\x7bd".toList [.fixed "a\\$\x7bb\x7d $".toList,
      .interpolation "$\x7bc\x7d".toList, .fixed [' '], .interpolation "$\x7bd".toList, .fixed []] ∧
    all "a\\$\x7bb\x7d $$\x7bc\x7d $\x7bd".toList = [⟨"a\\$\x7bb\x7d $".toList, 0⟩] ∧
    (Highlights.ofCandidate
      ⟨"a\\$\x7bb\x7d $$\x7bc\x7d $\x7bd".toList, 5, .argument, .template⟩).get .utility =
        [⟨5, 11⟩, ⟨12, 13⟩] ∧
    (∃ k, 12 = 5 + k ∧ ¬ TemplatePiece.IsInterpolated [.fixed "a\\$\x7bb\x7d $".toList,
      .interpolation "$\x7bc\x7d".toList, .fixed [' '], .interpolation "$\x7bd".toList, .fixed []]
      k) ∧
    Search.runFor? "a\\$\x7bb\x7d $$\x7bc\x7d $\x7bd".toList 9 Search.initial =
      some [⟨"a\\$\x7bb\x7d $".toList, 0⟩] := by
  rcases all_exact "a\\$\x7bb\x7d $$\x7bc\x7d $\x7bd".toList with ⟨-, hpieces, -, hrounds⟩
  have hdivision : IsDivision "a\\$\x7bb\x7d $$\x7bc\x7d $\x7bd".toList
      [.fixed "a\\$\x7bb\x7d $".toList, .interpolation "$\x7bc\x7d".toList, .fixed [' '],
        .interpolation "$\x7bd".toList, .fixed []] := by
    rw [TemplatePiece.isDivision_iff]
    decide +kernel
  have hall : all "a\\$\x7bb\x7d $$\x7bc\x7d $\x7bd".toList =
      [⟨"a\\$\x7bb\x7d $".toList, 0⟩] := by
    decide +kernel
  have hutility : (Highlights.ofCandidate
      ⟨"a\\$\x7bb\x7d $$\x7bc\x7d $\x7bd".toList, 5, .argument, .template⟩).get .utility =
        [⟨5, 11⟩, ⟨12, 13⟩] := by
    decide +kernel
  have hdollar : ⟨12, 13⟩ ∈ (Highlights.ofCandidate
      ⟨"a\\$\x7bb\x7d $$\x7bc\x7d $\x7bd".toList, 5, .argument, .template⟩).get .utility := by
    rw [hutility]
    exact List.mem_cons_of_mem _ (List.mem_singleton_self _)
  have hfound := hrounds 9 (by decide)
  rw [hall] at hfound
  exact ⟨hdivision, hall, hutility, (hpieces _ hdivision).2 _ rfl rfl .utility _ hdollar 12
    (by decide) (by decide), hfound⟩

end ClassHighlight
