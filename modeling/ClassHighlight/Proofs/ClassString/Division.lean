import ClassHighlight.Proofs.ClassString.Order
import ClassHighlight.Proofs.Source.Escape

/-!
# The division of a template literal

The body of a template literal can be divided in one way into fixed texts without an opening
delimiter and interpolations that end at their first closing brace. Splitting finds this division,
and the static runs are those of its fixed texts that hold more than blanks.
-/

namespace ClassHighlight

namespace TemplatePiece

@[simp] theorem byteLength_opener : Text.byteLength opener = 2 := by decide

/-- Each opening delimiter in a part of a body that starts at an offset is escaped in the body. -/
def IsFixed (body : Text) (offset : Nat) (t : Text) : Prop :=
  ∀ i, t.HasAt i opener → isEscaped (Text.bytes body) (offset + i) = true

/-- Pieces from an offset of a body on, in which fixed texts and interpolations take turns. -/
inductive Alternate (body : Text) : (offset : Nat) → List TemplatePiece → Prop where
  /-- There is no interpolation. -/
  | last {offset : Nat} {t : Text} (hfixed : IsFixed body offset t) : Alternate body offset [.fixed t]
  /-- There is an interpolation that ends at its first closing brace. -/
  | closed {offset : Nat} {t inner : Text} {later : List TemplatePiece}
      (hfixed : IsFixed body offset t)
      (hopens : isEscaped (Text.bytes body) (offset + Text.byteLength t) = false)
      (hinner : '}' ∉ inner)
      (hlater : Alternate body
        (offset + Text.byteLength t + Text.byteLength (opener ++ inner ++ ['}'])) later) :
      Alternate body offset (.fixed t :: .interpolation (opener ++ inner ++ ['}']) :: later)
  /-- There is an interpolation without a closing brace, and nothing behind it. -/
  | unclosed {offset : Nat} {t inner : Text} (hfixed : IsFixed body offset t)
      (hopens : isEscaped (Text.bytes body) (offset + Text.byteLength t) = false)
      (hinner : '}' ∉ inner) :
      Alternate body offset [.fixed t, .interpolation (opener ++ inner), .fixed []]

/-- The pieces of a body: fixed texts and interpolations in turns that make up the body. -/
structure IsDivision (body : Text) (pieces : List TemplatePiece) : Prop where
  /-- They take turns. -/
  alternate : Alternate body 0 pieces
  /-- Together they are the body. -/
  whole : pieces.flatMap text = body

/-! ## Splitting, piece by piece -/

theorem startsInterpolation_iff {t : Text} :
    startsInterpolation t = true ↔ ∃ rest, t = opener ++ rest := by
  constructor
  · intro h
    unfold startsInterpolation at h
    split at h
    · exact ⟨_, rfl⟩
    · cases h
  · rintro ⟨rest, rfl⟩
    rfl

/-- Fixed text is passed over as long as each opening delimiter in it is escaped. -/
theorem splitFixed_append_of_escaped (before : Text) {t behind : Text}
    (h : ∀ i < Text.byteLength t, (t ++ behind).HasAt i opener →
      isEscaped (Text.bytes (before ++ (t ++ behind))) (Text.byteLength before + i) = true) :
    splitFixed (isEscaped (Text.bytes before) (Text.byteLength before)) (t ++ behind) =
      (splitFixed (isEscaped (Text.bytes (before ++ t)) (Text.byteLength (before ++ t))) behind).map
        (t ++ ·) id := by
  induction t generalizing before with
  | nil => simp [Prod.map]
  | cons c rest ih =>
    have hpos := c.utf8Size_pos
    have hstay : ¬ (!isEscaped (Text.bytes before) (Text.byteLength before) &&
        startsInterpolation (c :: (rest ++ behind))) = true := by
      rw [Bool.and_eq_true, Bool.not_eq_true', startsInterpolation_iff]
      rintro ⟨hopen, behind', heq⟩
      have hescaped := h 0 (by rw [Text.byteLength_cons]; omega) ⟨[], behind', heq, rfl⟩
      rw [Nat.add_zero, isEscaped_behind, hopen] at hescaped
      cases hescaped
    have hlater : ∀ i < Text.byteLength rest, Text.HasAt (rest ++ behind) i opener →
        isEscaped (Text.bytes (before ++ [c] ++ (rest ++ behind)))
          (Text.byteLength (before ++ [c]) + i) = true := by
      intro i hi hat
      have hescaped := h (c.utf8Size + i) (by rw [Text.byteLength_cons]; omega) (hat.cons c)
      rwa [Text.byteLength_append, List.append_assoc, Text.byteLength_cons, Text.byteLength_nil,
        Nat.add_zero, Nat.add_assoc]
    have hnext := ih (before ++ [c]) hlater
    rw [isEscaped_concat, List.append_assoc] at hnext
    rw [List.cons_append, splitFixed, if_neg hstay, hnext]
    rfl

/-- An interpolation ends at its first closing brace. -/
theorem splitInterpolation?_closed {inner : Text} (h : '}' ∉ inner) (behind : Text) :
    splitInterpolation? (inner ++ '}' :: behind) = some (inner ++ ['}'], behind) := by
  induction inner with
  | nil => rfl
  | cons c inner ih =>
    rw [List.mem_cons, not_or] at h
    rw [List.cons_append, splitInterpolation?, ih h.2]
    · rfl
    · rintro rfl
      exact h.1 rfl

theorem splitInterpolation?_eq_none {t : Text} (h : '}' ∉ t) : splitInterpolation? t = none := by
  induction t with
  | nil => rfl
  | cons c t ih =>
    rw [List.mem_cons, not_or] at h
    rw [splitInterpolation?, ih h.2]
    · rfl
    · rintro rfl
      exact h.1 rfl

/-- A delimiter that starts in a text ends in it, unless a brace stands behind the text. -/
theorem hasAt_opener_of_append {t behind : Text} {i : Nat} (hbehind : behind.head? ≠ some '{')
    (h : (t ++ behind).HasAt i opener) (hi : i < Text.byteLength t) : t.HasAt i opener := by
  rcases h with ⟨before, after, hsplit, rfl⟩
  rw [List.append_assoc] at hsplit
  rcases List.append_eq_append_iff.1 hsplit with ⟨part, rfl, -⟩ | ⟨part, rfl, hafter⟩
  · rw [Text.byteLength_append] at hi
    omega
  · match part, hafter with
    | [], _ => simp at hi
    | [_], hafter =>
      -- the text ends with the dollar sign
      have hbrace : '{' :: after = behind := (List.cons.inj hafter).2
      rw [← hbrace] at hbehind
      exact absurd rfl hbehind
    | _ :: _ :: part, hafter =>
      obtain ⟨rfl, hrest⟩ := List.cons.inj hafter
      obtain ⟨rfl, -⟩ := List.cons.inj hrest
      exact ⟨before, part, by simp [opener], rfl⟩

section Split

variable {body before t inner behind : Text}

/-- Fixed text is passed over if what follows it does not go on with a brace. -/
theorem splitFixed_append_of_isFixed (hbody : body = before ++ (t ++ behind))
    (hstart : isEscaped (Text.bytes body) (Text.byteLength before) = false)
    (hfixed : IsFixed body (Text.byteLength before) t) (hbehind : behind.head? ≠ some '{') :
    splitFixed false (t ++ behind) =
      (splitFixed (isEscaped (Text.bytes body) (Text.byteLength before + Text.byteLength t))
        behind).map (t ++ ·) id := by
  subst hbody
  have hescaped : ∀ i < Text.byteLength t, (t ++ behind).HasAt i opener →
      isEscaped (Text.bytes (before ++ (t ++ behind))) (Text.byteLength before + i) = true := by
    intro i hi hat
    exact hfixed i (hasAt_opener_of_append hbehind hat hi)
  have hpass := splitFixed_append_of_escaped before hescaped
  have hbefore : isEscaped (Text.bytes before) (Text.byteLength before) = false := by
    rwa [isEscaped_behind] at hstart
  have hstate : isEscaped (Text.bytes (before ++ t)) (Text.byteLength (before ++ t)) =
      isEscaped (Text.bytes (before ++ (t ++ behind)))
        (Text.byteLength before + Text.byteLength t) := by
    rw [← List.append_assoc, ← Text.byteLength_append, isEscaped_behind]
  rwa [hbefore, hstate] at hpass

/-- A text without an interpolation is one piece. -/
theorem split_of_last (hbody : body = before ++ t)
    (hstart : isEscaped (Text.bytes body) (Text.byteLength before) = false)
    (hfixed : IsFixed body (Text.byteLength before) t) : split t = [.fixed t] := by
  have hend : body = before ++ (t ++ []) := by rwa [List.append_nil]
  have hpass := splitFixed_append_of_isFixed hend hstart hfixed (by simp)
  have hall : splitFixed false t = (t, []) := by
    simpa [splitFixed] using hpass
  fun_cases split t with
  | case1 fixedText hfound =>
    rw [hall] at hfound
    rw [(Prod.mk.inj hfound).1]
  | case2 fixedText c rest hfound =>
    rw [hall] at hfound
    cases hfound
  | case3 fixedText c rest hfound =>
    rw [hall] at hfound
    cases hfound

/-- The fixed text in front of an interpolation is found. -/
theorem splitFixed_of_opens (hbody : body = before ++ (t ++ (opener ++ behind)))
    (hstart : isEscaped (Text.bytes body) (Text.byteLength before) = false)
    (hfixed : IsFixed body (Text.byteLength before) t)
    (hopens : isEscaped (Text.bytes body) (Text.byteLength before + Text.byteLength t) = false) :
    splitFixed false (t ++ (opener ++ behind)) = (t, opener ++ behind) := by
  have hpass := splitFixed_append_of_isFixed hbody hstart hfixed (by simp [opener])
  have hstop : splitFixed false (opener ++ behind) = ([], opener ++ behind) := rfl
  simpa [hopens, hstop] using hpass

/-- An interpolation that is closed is a piece of its own, with the pieces of the rest behind it. -/
theorem split_of_closed (hbody : body = before ++ (t ++ (opener ++ (inner ++ '}' :: behind))))
    (hstart : isEscaped (Text.bytes body) (Text.byteLength before) = false)
    (hfixed : IsFixed body (Text.byteLength before) t)
    (hopens : isEscaped (Text.bytes body) (Text.byteLength before + Text.byteLength t) = false)
    (hinner : '}' ∉ inner) :
    split (t ++ (opener ++ (inner ++ '}' :: behind))) =
      .fixed t :: .interpolation (opener ++ inner ++ ['}']) :: split behind := by
  have hpass := splitFixed_of_opens hbody hstart hfixed hopens
  have hend : splitInterpolation? (opener ++ (inner ++ '}' :: behind)) =
      some (opener ++ inner ++ ['}'], behind) := by
    have hnot : '}' ∉ opener ++ inner := by simpa [opener] using hinner
    rw [← List.append_assoc]
    exact splitInterpolation?_closed hnot behind
  fun_cases split (t ++ (opener ++ (inner ++ '}' :: behind))) with
  | case1 fixedText hfound =>
    rw [hpass] at hfound
    cases hfound
  | case2 fixedText c rest hfound closed after hclosed =>
    rw [hpass] at hfound
    obtain ⟨rfl, hrest⟩ := Prod.mk.inj hfound
    rw [← hrest, hend] at hclosed
    obtain ⟨rfl, rfl⟩ := Prod.mk.inj (Option.some.inj hclosed)
    rfl
  | case3 fixedText c rest hfound hnone =>
    rw [hpass] at hfound
    rw [← (Prod.mk.inj hfound).2, hend] at hnone
    cases hnone

/-- An interpolation that is not closed is the last piece but for an empty one. -/
theorem split_of_unclosed (hbody : body = before ++ (t ++ (opener ++ inner)))
    (hstart : isEscaped (Text.bytes body) (Text.byteLength before) = false)
    (hfixed : IsFixed body (Text.byteLength before) t)
    (hopens : isEscaped (Text.bytes body) (Text.byteLength before + Text.byteLength t) = false)
    (hinner : '}' ∉ inner) :
    split (t ++ (opener ++ inner)) = [.fixed t, .interpolation (opener ++ inner), .fixed []] := by
  have hpass := splitFixed_of_opens hbody hstart hfixed hopens
  have hend : splitInterpolation? (opener ++ inner) = none :=
    splitInterpolation?_eq_none (by simpa [opener] using hinner)
  fun_cases split (t ++ (opener ++ inner)) with
  | case1 fixedText hfound =>
    rw [hpass] at hfound
    cases hfound
  | case2 fixedText c rest hfound closed after hclosed =>
    rw [hpass] at hfound
    rw [← (Prod.mk.inj hfound).2, hend] at hclosed
    cases hclosed
  | case3 fixedText c rest hfound hnone =>
    rw [hpass] at hfound
    obtain ⟨rfl, hrest⟩ := Prod.mk.inj hfound
    rw [← hrest]

end Split

/-! ## The pieces that splitting gives -/

/-- Passing over fixed text goes up to the first opening delimiter that is not escaped. -/
theorem splitFixed_spec {before t fixedText behind : Text}
    (h : splitFixed (isEscaped (Text.bytes before) (Text.byteLength before)) t =
      (fixedText, behind)) :
    (∀ i < Text.byteLength fixedText, t.HasAt i opener →
      isEscaped (Text.bytes (before ++ t)) (Text.byteLength before + i) = true) ∧
    (behind = [] ∨ (∃ rest, behind = opener ++ rest) ∧
      isEscaped (Text.bytes (before ++ t)) (Text.byteLength before + Text.byteLength fixedText) =
        false) := by
  induction t generalizing before fixedText with
  | nil =>
    obtain ⟨rfl, rfl⟩ := Prod.mk.inj h
    exact ⟨fun i hi => absurd hi (Nat.not_lt_zero i), Or.inl rfl⟩
  | cons c rest ih =>
    have hhere : isEscaped (Text.bytes (before ++ c :: rest)) (Text.byteLength before) =
        isEscaped (Text.bytes before) (Text.byteLength before) := by
      rw [isEscaped_behind]
    rw [splitFixed] at h
    split at h
    · -- an interpolation starts here
      rename_i hstop
      rw [Bool.and_eq_true, Bool.not_eq_true', startsInterpolation_iff] at hstop
      obtain ⟨rfl, rfl⟩ := Prod.mk.inj h
      refine ⟨fun i hi => absurd hi (Nat.not_lt_zero i), Or.inr ⟨hstop.2, ?_⟩⟩
      rw [Text.byteLength_nil, Nat.add_zero, hhere]
      exact hstop.1
    · rename_i hstay
      rw [Bool.and_eq_true, Bool.not_eq_true', startsInterpolation_iff] at hstay
      rcases hrest : splitFixed (c == '\\' && !isEscaped (Text.bytes before)
        (Text.byteLength before)) rest with ⟨fixedRest, behindRest⟩
      rw [hrest] at h
      obtain ⟨rfl, rfl⟩ : c :: fixedRest = fixedText ∧ behindRest = behind := Prod.mk.inj h
      rw [← isEscaped_concat] at hrest
      rcases ih hrest with ⟨hescaped, hstop⟩
      rw [List.append_assoc, Text.byteLength_append, Text.byteLength_cons, Text.byteLength_nil,
        Nat.add_zero] at hescaped hstop
      rw [Text.byteLength_cons, ← Nat.add_assoc]
      refine ⟨?_, hstop⟩
      rintro i hi ⟨front, after, hsplit, rfl⟩
      cases front with
      | nil =>
        rw [Text.byteLength_nil, Nat.add_zero, hhere, ← Bool.not_eq_false]
        intro hopen
        exact hstay ⟨hopen, after, hsplit⟩
      | cons d front =>
        obtain ⟨rfl, hrest⟩ := List.cons.inj hsplit
        rw [Text.byteLength_cons] at hi
        rw [Text.byteLength_cons, ← Nat.add_assoc]
        exact hescaped _ (by omega) ⟨front, after, hrest, rfl⟩

theorem splitInterpolation?_opener (rest : Text) :
    splitInterpolation? (opener ++ rest) =
      (splitInterpolation? rest).map fun (closed, after) => (opener ++ closed, after) := by
  show Option.map _ (Option.map _ _) = _
  rw [Option.map_map]
  rfl

/-- An interpolation that ends goes up to its first closing brace. -/
theorem exists_of_splitInterpolation? {t closed after : Text}
    (h : splitInterpolation? t = some (closed, after)) :
    ∃ inner, closed = inner ++ ['}'] ∧ '}' ∉ inner := by
  fun_induction splitInterpolation? t generalizing closed after with
  | case1 => cases h
  | case2 rest =>
    obtain ⟨rfl, rfl⟩ : ['}'] = closed ∧ rest = after := by simpa using h
    exact ⟨[], rfl, List.not_mem_nil⟩
  | case3 c rest hc ih =>
    rcases Option.map_eq_some_iff.1 h with ⟨⟨closed', after'⟩, hrest, heq⟩
    obtain ⟨rfl, rfl⟩ : c :: closed' = closed ∧ after' = after := by simpa using heq
    rcases ih hrest with ⟨inner, rfl, hinner⟩
    refine ⟨c :: inner, rfl, ?_⟩
    rw [List.mem_cons, not_or]
    exact ⟨fun heq => hc heq.symm, hinner⟩

theorem not_mem_of_splitInterpolation? {t : Text} (h : splitInterpolation? t = none) : '}' ∉ t := by
  fun_induction splitInterpolation? t with
  | case1 => exact List.not_mem_nil
  | case2 rest => cases h
  | case3 c rest hc ih =>
    rw [List.mem_cons, not_or]
    exact ⟨fun heq => hc heq.symm, ih (Option.map_eq_none_iff.1 h)⟩

/-- Behind a closing brace nothing is escaped. -/
theorem isEscaped_behind_brace {body before behind : Text}
    (hbody : body = before ++ ('}' :: behind)) :
    isEscaped (Text.bytes body) (Text.byteLength (before ++ ['}'])) = false := by
  rw [hbody, ← List.singleton_append, ← List.append_assoc, isEscaped_behind, isEscaped_concat]
  rfl

theorem length_behind_closed (before t inner : Text) :
    Text.byteLength (before ++ (t ++ (opener ++ inner)) ++ ['}']) =
      Text.byteLength before + Text.byteLength t + Text.byteLength (opener ++ inner ++ ['}']) := by
  simp only [Text.byteLength_append, Nat.add_assoc]

section Division

variable {body before t : Text} {offset : Nat} {pieces : List TemplatePiece}

/-- The fixed text in front of a division is fixed, and an interpolation opens behind it if anything
is left. -/
theorem isFixed_of_splitFixed {fixedText behind : Text} (hbody : body = before ++ t)
    (hstart : isEscaped (Text.bytes body) (Text.byteLength before) = false)
    (h : splitFixed false t = (fixedText, behind)) :
    IsFixed body (Text.byteLength before) fixedText ∧
      (behind = [] ∨ (∃ rest, behind = opener ++ rest) ∧
        isEscaped (Text.bytes body) (Text.byteLength before + Text.byteLength fixedText) =
          false) := by
  subst hbody
  have hstate : isEscaped (Text.bytes before) (Text.byteLength before) = false := by
    rwa [isEscaped_behind] at hstart
  have happend := splitFixed_append false t
  rw [h] at happend
  rw [← hstate] at h
  rcases splitFixed_spec h with ⟨hescaped, hbehind⟩
  refine ⟨?_, hbehind⟩
  intro i hat
  have hle := hat.le_byteLength
  rw [byteLength_opener] at hle
  apply hescaped i (by omega)
  rw [← happend]
  exact hat.append_right behind

/-- The pieces that splitting gives are fixed texts and interpolations in turns. -/
theorem alternate_split (hbody : body = before ++ t)
    (hstart : isEscaped (Text.bytes body) (Text.byteLength before) = false) :
    Alternate body (Text.byteLength before) (split t) := by
  fun_induction split t generalizing before with
  | case1 t fixedText hfound => exact .last (isFixed_of_splitFixed hbody hstart hfound).1
  | case2 t fixedText c rest hfound closed after hclosed ih =>
    rcases isFixed_of_splitFixed hbody hstart hfound with ⟨hfixed, hbehind⟩
    rcases hbehind.resolve_left (List.cons_ne_nil _ _) with ⟨⟨rest', hopener⟩, hopens⟩
    have happend := splitFixed_append false t
    rw [hfound, (append_of_splitInterpolation? hclosed).1] at happend
    rw [hopener, splitInterpolation?_opener] at hclosed
    rcases Option.map_eq_some_iff.1 hclosed with ⟨⟨closed', after'⟩, hrest, heq⟩
    rcases exists_of_splitInterpolation? hrest with ⟨inner, rfl, hinner⟩
    obtain ⟨rfl, rfl⟩ : opener ++ (inner ++ ['}']) = closed ∧ after' = after := by simpa using heq
    have hfront : body = before ++ (fixedText ++ (opener ++ inner)) ++ '}' :: after' := by
      rw [hbody, ← happend]
      simp only [List.append_assoc, List.singleton_append]
    have hlater := ih (by rw [hfront, List.append_assoc _ ['}'], List.singleton_append])
      (isEscaped_behind_brace hfront)
    rw [length_behind_closed] at hlater
    rw [← List.append_assoc]
    exact .closed hfixed hopens hinner hlater
  | case3 t fixedText c rest hfound hnone =>
    rcases isFixed_of_splitFixed hbody hstart hfound with ⟨hfixed, hbehind⟩
    rcases hbehind.resolve_left (List.cons_ne_nil _ _) with ⟨⟨inner, hopener⟩, hopens⟩
    have hnot := not_mem_of_splitInterpolation? hnone
    rw [hopener] at hnot ⊢
    exact .unclosed hfixed hopens fun hin => hnot (List.mem_append_right _ hin)

/-- Fixed texts and interpolations in turns are what splitting gives. -/
theorem Alternate.eq_split (h : Alternate body offset pieces) (hoffset : Text.byteLength before = offset)
    (hbody : body = before ++ pieces.flatMap text)
    (hstart : isEscaped (Text.bytes body) offset = false) :
    pieces = split (pieces.flatMap text) := by
  induction h generalizing before with
  | last hfixed =>
    subst hoffset
    simp only [List.flatMap_cons, List.flatMap_nil, text, List.append_nil] at hbody ⊢
    exact (split_of_last hbody hstart hfixed).symm
  | closed hfixed hopens hinner hlater ih =>
    subst hoffset
    rename_i t inner later
    simp only [List.flatMap_cons, text, List.append_assoc, List.singleton_append] at hbody ⊢
    rw [split_of_closed hbody hstart hfixed hopens hinner, List.append_assoc]
    have hfront : body = before ++ (t ++ (opener ++ inner)) ++ '}' :: later.flatMap text := by
      rw [hbody]
      simp only [List.append_assoc]
    congr 2
    apply ih (length_behind_closed before t inner)
    · rw [hfront, List.append_assoc _ ['}'], List.singleton_append]
    · rw [← length_behind_closed]
      exact isEscaped_behind_brace hfront
  | unclosed hfixed hopens hinner =>
    subst hoffset
    simp only [List.flatMap_cons, List.flatMap_nil, text, List.append_nil] at hbody ⊢
    exact (split_of_unclosed hbody hstart hfixed hopens hinner).symm

/-- A body has one division, the one that splitting gives. -/
theorem isDivision_iff : IsDivision body pieces ↔ pieces = split body := by
  have hstart : isEscaped (Text.bytes body) (Text.byteLength []) = false := rfl
  constructor
  · rintro ⟨halternate, hwhole⟩
    have hsplit := halternate.eq_split Text.byteLength_nil hwhole.symm hstart
    rwa [hwhole] at hsplit
  · rintro rfl
    exact ⟨alternate_split (List.nil_append body).symm hstart, flatMap_split body⟩

end Division

end TemplatePiece

namespace StaticRun

/-- A fixed text with more than blanks in it is among some pieces, and the pieces before it reach up
to its offset. -/
def IsAmong (run : StaticRun) (pieces : List TemplatePiece) : Prop :=
  ∃ earlier later, pieces = earlier ++ .fixed run.text :: later ∧
    run.offset = Text.byteLength (earlier.flatMap TemplatePiece.text) ∧
    ∃ c ∈ run.text, isBlank c = false

theorem mem_ofPieces_iff {run : StaticRun} {offset : Nat} {pieces : List TemplatePiece} :
    run ∈ ofPieces offset pieces ↔ ∃ earlier later, pieces = earlier ++ .fixed run.text :: later ∧
      run.offset = offset + Text.byteLength (earlier.flatMap TemplatePiece.text) ∧
      ∃ c ∈ run.text, isBlank c = false := by
  induction pieces generalizing offset with
  | nil => simp [ofPieces]
  | cons piece rest ih =>
    have hlater : run ∈ ofPieces (offset + Text.byteLength piece.text) rest ↔
        ∃ earlier later, piece :: rest = (piece :: earlier) ++ .fixed run.text :: later ∧
          run.offset =
            offset + Text.byteLength ((piece :: earlier).flatMap TemplatePiece.text) ∧
          ∃ c ∈ run.text, isBlank c = false := by
      rw [ih]
      simp [Nat.add_assoc]
    constructor
    · intro h
      by_cases hin : run ∈ ofPieces (offset + Text.byteLength piece.text) rest
      · rcases hlater.1 hin with ⟨earlier, later, hpieces⟩
        exact ⟨piece :: earlier, later, hpieces⟩
      · -- the run is the first piece
        cases piece with
        | interpolation t => exact absurd h hin
        | fixed t =>
          rw [ofPieces] at h
          split at h
          · exact absurd h hin
          · rename_i hblank
            obtain rfl := (List.mem_cons.1 h).resolve_right hin
            exact ⟨[], rest, rfl, rfl, by simpa using hblank⟩
    · rintro ⟨earlier, later, hpieces, hoffset, hblank⟩
      cases earlier with
      | nil =>
        obtain ⟨rfl, rfl⟩ := List.cons.inj hpieces
        rw [ofPieces, if_neg (by simpa using hblank), List.mem_cons]
        left
        cases run
        simpa using hoffset
      | cons first earlier =>
        obtain ⟨rfl, hrest⟩ := List.cons.inj hpieces
        have hin := hlater.2 ⟨earlier, later, by rw [hrest]; rfl, hoffset, hblank⟩
        cases piece with
        | interpolation t => exact hin
        | fixed t =>
          rw [ofPieces]
          split
          · exact hin
          · exact List.mem_cons_of_mem _ hin

/-- The static runs of a body are the fixed texts of its division with more than blanks in them. -/
theorem mem_all_iff {run : StaticRun} {t : Text} :
    run ∈ all t ↔ IsAmong run (TemplatePiece.split t) := by
  rw [all, mem_ofPieces_iff]
  simp only [Nat.zero_add, IsAmong]

end StaticRun

end ClassHighlight
