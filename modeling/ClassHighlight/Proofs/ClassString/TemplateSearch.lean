import Mathlib.Data.List.TakeWhile
import ClassHighlight.ClassString.TemplateSearch
import ClassHighlight.Proofs.ClassString.Division

/-!
# Reading with two cursors finds the static runs

Between its two cursors a search has passed escaped delimiters only. Each round keeps this, and moves
the second cursor behind one delimiter at least or ends the search. So the search ends, no cut fails,
and the runs are those of the division of the body.
-/

namespace ClassHighlight

namespace Text

/-! ## Finding a pattern -/

section Find

variable {t pattern : Text}

theorem hasAt_zero_iff : t.HasAt 0 pattern ↔ pattern <+: t := by
  constructor
  · rintro ⟨before, after, rfl, hlength⟩
    cases before with
    | nil => exact ⟨after, rfl⟩
    | cons c before =>
      have := c.utf8Size_pos
      rw [byteLength_cons] at hlength
      omega
  · rintro ⟨after, rfl⟩
    exact ⟨[], after, rfl, rfl⟩

/-- What does not stand at the start of a text stands behind the first character. -/
theorem HasAt.behind_head {c : Char} {i : Nat} (h : HasAt (c :: t) i pattern)
    (hnot : ¬ pattern <+: c :: t) : ∃ j, i = c.utf8Size + j ∧ t.HasAt j pattern := by
  rcases h with ⟨before, after, hsplit, rfl⟩
  cases before with
  | nil => exact absurd ⟨after, hsplit.symm⟩ hnot
  | cons d before =>
    obtain ⟨rfl, hrest⟩ := List.cons.inj hsplit
    exact ⟨byteLength before, rfl, before, after, hrest, rfl⟩

/-- The place that is found is the first one. -/
theorem find?_eq_some {k : Nat} (h : t.find? pattern = some k) :
    t.HasAt k pattern ∧ ∀ i < k, ¬ t.HasAt i pattern := by
  induction t generalizing k with
  | nil =>
    rw [find?, Option.ite_none_right_eq_some] at h
    obtain ⟨hempty, rfl⟩ : pattern = [] ∧ 0 = k := by simpa using h
    rw [hempty]
    exact ⟨.whole [], fun i hi => absurd hi (Nat.not_lt_zero i)⟩
  | cons c rest ih =>
    rw [find?] at h
    split at h
    · rename_i hprefix
      obtain rfl := Option.some.inj h
      exact ⟨hasAt_zero_iff.2 (List.isPrefixOf_iff_prefix.1 hprefix),
        fun i hi => absurd hi (Nat.not_lt_zero i)⟩
    · rename_i hprefix
      rw [List.isPrefixOf_iff_prefix] at hprefix
      rcases Option.map_eq_some_iff.1 h with ⟨distance, hrest, rfl⟩
      rcases ih hrest with ⟨hat, hfirst⟩
      refine ⟨hat.cons c, ?_⟩
      intro i hi hearlier
      rcases hearlier.behind_head hprefix with ⟨j, rfl, hj⟩
      exact hfirst j (by omega) hj

theorem find?_eq_none (h : t.find? pattern = none) (i : Nat) : ¬ t.HasAt i pattern := by
  induction t generalizing i with
  | nil =>
    rintro ⟨before, after, hsplit, -⟩
    rw [find?, ite_eq_right_iff] at h
    have hempty : pattern = [] := by simp_all
    cases h (by rw [hempty]; rfl)
  | cons c rest ih =>
    rw [find?] at h
    split at h
    · cases h
    · rename_i hprefix
      rw [List.isPrefixOf_iff_prefix] at hprefix
      intro hat
      rcases hat.behind_head hprefix with ⟨j, -, hj⟩
      exact ih (Option.map_eq_none_iff.1 h) j hj

end Find

/-- Nothing is left of a text that is trimmed exactly if it holds blanks only. -/
theorem isEmpty_trim (t : Text) : t.trim.isEmpty = t.all isBlank := by
  rw [Bool.eq_iff_iff, List.isEmpty_iff, trim, List.reverse_eq_nil_iff, List.dropWhile_eq_nil_iff,
    List.all_eq_true]
  simp only [List.mem_reverse]
  constructor
  · intro h c hc
    rw [← List.takeWhile_append_dropWhile (p := isBlank) (l := t), List.mem_append] at hc
    rcases hc with hc | hc
    · exact List.mem_takeWhile_imp hc
    · exact h c hc
  · intro h c hc
    exact h c ((List.dropWhile_suffix isBlank).subset hc)

end Text

/-- No opening delimiter starts at the brace of another one. -/
theorem TemplatePiece.not_hasAt_opener_succ {t : Text} {i : Nat} (h : t.HasAt i opener) :
    ¬ t.HasAt (i + 1) opener := by
  intro hnext
  have hbrace := h.getElem?_bytes (k := 1) (by decide)
  have hdollar := hnext.getElem?_bytes (k := 0) (by decide)
  rw [Nat.add_zero, hbrace] at hdollar
  revert hdollar
  decide

namespace StaticRun

/-- The runs of pieces one behind the other are those of the first ones and those of the others. -/
theorem ofPieces_append (offset : Nat) (pieces later : List TemplatePiece) :
    ofPieces offset (pieces ++ later) = ofPieces offset pieces ++
      ofPieces (offset + Text.byteLength (pieces.flatMap TemplatePiece.text)) later := by
  induction pieces generalizing offset with
  | nil => rfl
  | cons piece rest ih =>
    rw [List.flatMap_cons, Text.byteLength_append, ← Nat.add_assoc, List.cons_append]
    cases piece with
    | interpolation t => exact ih _
    | fixed t =>
      rw [ofPieces, ofPieces, ih]
      split <;> rfl

namespace Search

open TemplatePiece (opener IsFixed)

/-! ## One round -/

/-- A search that has divided the part of a body before its first cursor, and has passed escaped
delimiters only between its cursors. -/
structure IsAt (s : Search) (body before rest : Text) : Prop where
  /-- The first cursor stands between the two parts of the body. -/
  whole : body = before ++ rest
  /-- It is as far from the start as the first part is long. -/
  start_eq : Text.byteLength before = s.start
  /-- No delimiter is escaped there. -/
  unescaped : isEscaped (Text.bytes body) s.start = false
  /-- The second cursor stands further on. -/
  le_position : s.start ≤ s.position
  /-- It stands between two characters. -/
  boundary : body.IsBoundary s.position
  /-- The delimiters between the cursors are escaped. -/
  escaped : ∀ i, s.start ≤ i → i < s.position → body.HasAt i opener →
    isEscaped (Text.bytes body) i = true
  /-- The runs that were found are those of the first part. -/
  runs_eq : all body = s.runs ++ ofPieces s.start (TemplatePiece.split rest)

theorem initial_isAt (body : Text) : initial.IsAt body [] body where
  whole := rfl
  start_eq := rfl
  unescaped := rfl
  le_position := Nat.le_refl _
  boundary := ⟨[], body, rfl, rfl⟩
  escaped := fun i _ hi => absurd hi (Nat.not_lt_zero i)
  runs_eq := rfl

/-- The text between two offsets is added as a run unless it is blank. -/
theorem pushRun?_eq {body t : Text} {start : Nat} (h : body.HasAt start t) (runs : List StaticRun) :
    pushRun? body start (start + Text.byteLength t) runs =
      some (runs ++ ofPieces start [.fixed t]) := by
  rw [pushRun?, h.slice?, Option.map_some, Text.isEmpty_trim, ofPieces, ofPieces]
  split
  · rw [List.append_nil]
  · rfl

section Round

variable {s : Search} {body before rest : Text}

/-- A text from the first cursor on is fixed if the delimiters in it that start behind the second
cursor are escaped. -/
theorem IsAt.isFixed (h : s.IsAt body before rest) {t behind : Text} (hrest : rest = t ++ behind)
    (hescaped : ∀ i, s.position ≤ i → i + 2 ≤ s.start + Text.byteLength t → body.HasAt i opener →
      isEscaped (Text.bytes body) i = true) :
    IsFixed body (Text.byteLength before) t := by
  intro i hat
  have hle := hat.le_byteLength
  rw [TemplatePiece.byteLength_opener] at hle
  have hplace : body.HasAt (Text.byteLength before) t := ⟨before, behind, by
    rw [h.whole, hrest, List.append_assoc], rfl⟩
  have hwhole := hplace.trans hat
  have hstart := h.start_eq
  by_cases hi : Text.byteLength before + i < s.position
  · exact h.escaped _ (by omega) hi hwhole
  · exact hescaped _ (by omega) (by omega) hwhole

/-- Without another delimiter the rest is fixed text, and the search ends. -/
theorem IsAt.finish?_eq (h : s.IsAt body before rest)
    (hnone : ∀ i, s.position ≤ i → ¬ body.HasAt i opener) :
    finish? body s.start s.runs = some (.ends (all body)) := by
  have hfixed : IsFixed body (Text.byteLength before) rest :=
    h.isFixed (List.append_nil rest).symm fun i hi _ hat => absurd hat (hnone i hi)
  have hunescaped := h.unescaped
  rw [← h.start_eq] at hunescaped
  have hplace : body.HasAt s.start rest := ⟨before, [], by simp [h.whole], h.start_eq⟩
  have hlength : Text.byteLength body = s.start + Text.byteLength rest := by
    rw [h.whole, Text.byteLength_append, h.start_eq]
  rw [finish?, hlength, pushRun?_eq hplace, h.runs_eq,
    TemplatePiece.split_of_last h.whole hunescaped hfixed]
  rfl

/-- An escaped delimiter is passed by the second cursor. -/
theorem IsAt.pass (h : s.IsAt body before rest) {opening : Nat} (hle : s.position ≤ opening)
    (hat : body.HasAt opening opener)
    (hfirst : ∀ i, s.position ≤ i → i < opening → ¬ body.HasAt i opener)
    (hescaped : isEscaped (Text.bytes body) opening = true) :
    IsAt { s with position := opening + 2 } body before rest := by
  refine { h with le_position := ?_, boundary := ?_, escaped := ?_ }
  · have := h.le_position
    show s.start ≤ opening + 2
    omega
  · rcases hat with ⟨front, behind, hbody, rfl⟩
    exact ⟨front ++ opener, behind, hbody, by rw [Text.byteLength_append]; rfl⟩
  · intro i hi hlt hopener
    simp only at hi hlt
    by_cases hpassed : i < s.position
    · exact h.escaped i hi hpassed hopener
    · by_cases hearlier : i < opening
      · exact absurd hopener (hfirst i (by omega) hearlier)
      · -- the delimiter itself is left, since no other one starts at its brace
        obtain rfl | rfl : i = opening ∨ i = opening + 1 := by omega
        · exact hescaped
        · exact absurd hopener (TemplatePiece.not_hasAt_opener_succ hat)

/-- The fixed text reaches from the first cursor to the first delimiter that is not escaped. -/
theorem IsAt.opens (h : s.IsAt body before rest) {opening : Nat} (hle : s.position ≤ opening)
    (hat : body.HasAt opening opener)
    (hfirst : ∀ i, s.position ≤ i → i < opening → ¬ body.HasAt i opener) :
    ∃ t behind, rest = t ++ (opener ++ behind) ∧ opening = s.start + Text.byteLength t ∧
      IsFixed body (Text.byteLength before) t := by
  have hstart := h.start_eq
  have hforward := h.le_position
  rw [h.whole] at hat
  rcases hat.of_le (by omega) with ⟨k, rfl, t, behind, hrest, rfl⟩
  rw [List.append_assoc] at hrest
  refine ⟨t, behind, hrest, by rw [hstart], h.isFixed hrest ?_⟩
  intro i hi hlt hopener
  exact absurd hopener (hfirst i hi (by omega))

section Opened

variable {t inner behind : Text}

/-- Behind an interpolation that is closed both cursors stand at the start of the next fixed text. -/
theorem IsAt.behind_closed
    (h : s.IsAt body before (t ++ (opener ++ (inner ++ '}' :: behind))))
    (hfixed : IsFixed body (Text.byteLength before) t)
    (hopens : isEscaped (Text.bytes body) (s.start + Text.byteLength t) = false)
    (hinner : '}' ∉ inner) {stop : Nat}
    (hstop : stop = s.start + Text.byteLength t + 2 + Text.byteLength inner + 1) :
    IsAt ⟨stop, stop, s.runs ++ ofPieces s.start [.fixed t]⟩ body
      (before ++ (t ++ (opener ++ inner)) ++ ['}']) behind := by
  have hwhole : body = before ++ (t ++ (opener ++ inner)) ++ '}' :: behind := by
    rw [h.whole]
    simp only [List.append_assoc]
  have hlength : Text.byteLength (before ++ (t ++ (opener ++ inner)) ++ ['}']) = stop := by
    rw [hstop, ← h.start_eq]
    simp only [Text.byteLength_append, TemplatePiece.byteLength_opener, Nat.add_assoc]
    rfl
  have hwhole' : body = before ++ (t ++ (opener ++ inner)) ++ ['}'] ++ behind := by
    rw [hwhole, List.append_assoc _ ['}'], List.singleton_append]
  have hunescaped := h.unescaped
  have hsplit := h.runs_eq
  rw [← h.start_eq] at hunescaped hopens
  rw [TemplatePiece.split_of_closed h.whole hunescaped hfixed hopens hinner] at hsplit
  constructor
  case whole => exact hwhole'
  case start_eq => exact hlength
  case unescaped =>
    rw [← hlength]
    exact TemplatePiece.isEscaped_behind_brace hwhole
  case le_position => exact Nat.le_refl _
  case boundary => exact ⟨_, behind, hwhole', hlength⟩
  case escaped => exact fun i hi hlt => absurd hi (Nat.not_le.2 hlt)
  case runs_eq =>
    -- the pieces up to the closing brace hold one fixed text
    have happend := ofPieces_append s.start
      [.fixed t, .interpolation (opener ++ inner ++ ['}'])] (TemplatePiece.split behind)
    have hpassed : s.start + Text.byteLength (List.flatMap TemplatePiece.text
        [.fixed t, .interpolation (opener ++ inner ++ ['}'])]) = stop := by
      rw [← hlength, ← h.start_eq, ← Text.byteLength_append]
      simp [TemplatePiece.text]
    rw [hpassed] at happend
    rw [hsplit]
    exact (congrArg (s.runs ++ ·) happend).trans (List.append_assoc _ _ _).symm

/-- An interpolation that is not closed is the last one, and no run is behind it. -/
theorem IsAt.all_eq (h : s.IsAt body before (t ++ (opener ++ inner)))
    (hfixed : IsFixed body (Text.byteLength before) t)
    (hopens : isEscaped (Text.bytes body) (s.start + Text.byteLength t) = false)
    (hinner : '}' ∉ inner) : all body = s.runs ++ ofPieces s.start [.fixed t] := by
  have hunescaped := h.unescaped
  rw [← h.start_eq] at hunescaped hopens
  rw [h.runs_eq, TemplatePiece.split_of_unclosed h.whole hunescaped hfixed hopens hinner]
  rfl

end Opened

/-- A delimiter that is not escaped ends the fixed text. Both cursors go behind the interpolation,
or the search ends with it. -/
theorem IsAt.skip (h : s.IsAt body before rest) {opening : Nat} (hle : s.position ≤ opening)
    (hat : body.HasAt opening opener)
    (hfirst : ∀ i, s.position ≤ i → i < opening → ¬ body.HasAt i opener)
    (hopens : isEscaped (Text.bytes body) opening = false) :
    (∃ next before' rest', skip? body s opening = some (.continues next) ∧
      next.IsAt body before' rest' ∧ opening + 2 ≤ next.position) ∨
    skip? body s opening = some (.ends (all body)) := by
  rcases h.opens hle hat hfirst with ⟨t, behind, rfl, rfl, hfixed⟩
  have hplace : body.HasAt s.start t :=
    ⟨before, opener ++ behind, by rw [h.whole, List.append_assoc], h.start_eq⟩
  have hslice : body.slice? (s.start + Text.byteLength t + 2) (Text.byteLength body) =
      some behind := by
    have hend := Text.slice?_end (before ++ (t ++ opener)) behind
    have hlength : Text.byteLength (before ++ (t ++ opener)) = s.start + Text.byteLength t + 2 := by
      simp only [Text.byteLength_append, TemplatePiece.byteLength_opener, h.start_eq, Nat.add_assoc]
    rw [hlength] at hend
    rw [h.whole]
    simpa only [List.append_assoc] using hend
  rw [skip?, pushRun?_eq hplace, Option.bind_some, hslice, Option.bind_some]
  cases hfind : behind.find? ['}'] with
  | some distance =>
    left
    rcases Text.find?_eq_some hfind with ⟨⟨inner, after, hbehind, rfl⟩, hbefore⟩
    have hclosing : behind = inner ++ '}' :: after := by
      rw [hbehind, List.append_assoc, List.singleton_append]
    subst hclosing
    exact ⟨_, _, after, rfl,
      h.behind_closed hfixed hopens (Text.not_mem_of_not_hasAt hbefore) rfl, by simp only; omega⟩
  | none =>
    right
    have hinner : '}' ∉ behind := by
      have hnot : ∀ i < Text.byteLength behind, ¬ (behind ++ []).HasAt i ['}'] := by
        rw [List.append_nil]
        exact fun i _ => Text.find?_eq_none hfind i
      exact Text.not_mem_of_not_hasAt hnot
    have hend : body.HasAt (Text.byteLength body) [] := ⟨body, [], by simp, rfl⟩
    have hnone := pushRun?_eq hend (all body)
    rw [Text.byteLength_nil, Nat.add_zero] at hnone
    simp only
    rw [finish?, ← h.all_eq hfixed hopens hinner, hnone]
    exact congrArg (some ∘ Round.ends) (List.append_nil _)

/-- A round goes on behind a delimiter, or it ends the search with the static runs. -/
theorem IsAt.round?_spec (h : s.IsAt body before rest) :
    (∃ next before' rest', round? body s = some (.continues next) ∧
      next.IsAt body before' rest' ∧ s.position + 2 ≤ next.position) ∨
    round? body s = some (.ends (all body)) := by
  rcases h.boundary with ⟨front, left, hbody, hfront⟩
  have hcut : body.slice? s.position (Text.byteLength body) = some left := by
    rw [hbody, ← hfront]
    exact Text.slice?_end front left
  rw [round?, hcut, Option.bind_some]
  cases hfind : left.find? opener with
  | some distance =>
    rcases Text.find?_eq_some hfind with ⟨hat, hbefore⟩
    have hopening : body.HasAt (s.position + distance) opener :=
      Text.HasAt.trans ⟨front, [], by rw [hbody, List.append_nil], hfront⟩ hat
    have hfirst : ∀ i, s.position ≤ i → i < s.position + distance → ¬ body.HasAt i opener := by
      intro i hi hlt hearlier
      rw [hbody] at hearlier
      rcases hearlier.of_le (by omega) with ⟨k, rfl, hk⟩
      exact hbefore k (by omega) hk
    by_cases hescaped : isEscaped (Text.bytes body) (s.position + distance) = true
    · left
      refine ⟨_, before, rest, if_pos hescaped, h.pass (by omega) hopening hfirst hescaped, ?_⟩
      simp only
      omega
    · simp only
      rw [if_neg hescaped]
      rcases h.skip (Nat.le_add_right _ _) hopening hfirst (by simpa using hescaped) with
        ⟨next, before', rest', hskip, hnext, hle⟩ | hskip
      · exact Or.inl ⟨next, before', rest', hskip, hnext, by omega⟩
      · exact Or.inr hskip
  | none =>
    right
    apply h.finish?_eq
    intro i hi hat
    rw [hbody] at hat
    rcases hat.of_le (by omega) with ⟨k, -, hk⟩
    exact Text.find?_eq_none hfind k hk

end Round

/-! ## All rounds -/

/-- Each round leaves at least two bytes less, so the search ends, with the static runs. -/
theorem IsAt.runFor?_eq {n : Nat} {s : Search} {body before rest : Text}
    (h : s.IsAt body before rest) (hn : Text.byteLength body < s.position + 2 * n) :
    runFor? body n s = some (all body) := by
  induction n generalizing s before rest with
  | zero =>
    rcases h.boundary with ⟨front, left, hbody, hfront⟩
    rw [hbody, Text.byteLength_append] at hn
    omega
  | succ n ih =>
    rw [runFor?]
    rcases h.round?_spec with ⟨next, before', rest', hround, hnext, hle⟩ | hround
    · rw [hround]
      exact ih hnext (by omega)
    · rw [hround]
      rfl

/-- Reading a body with two cursors finds its static runs within half as many rounds as it has
bytes, and one. -/
theorem runFor?_initial {body : Text} {n : Nat} (hn : Text.byteLength body < 2 * n) :
    runFor? body n initial = some (all body) :=
  (initial_isAt body).runFor?_eq (by rw [initial, Nat.zero_add]; exact hn)

end Search

end StaticRun

end ClassHighlight
