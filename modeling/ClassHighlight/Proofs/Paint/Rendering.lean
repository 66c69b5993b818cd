import Mathlib.Data.List.Chain
import ClassHighlight.Proofs.Paint.Canvas
import ClassHighlight.Proofs.Paint.Layer
import ClassHighlight.Proofs.Paint.Screen

/-!
# Rendered texts

Each character of a text has the style that is seen at its first byte. A text is rendered as its
longest runs of characters of one style, with the sequences that start and end it around each run
that has a style. A screen that reads this shows the characters of the text in their styles.
-/

namespace ClassHighlight

namespace Terminal

/-! ## Characters with styles -/

/-- The characters of a text, each with the style that is seen at its first byte. -/
structure AreCellsOf (t : Terminal) (text : Text) (cells : List (Option Style × Char)) : Prop where
  /-- They are the characters of the text. -/
  characters : cells.map Prod.snd = text
  /-- Each has its style. -/
  styles : ∀ front style c behind, cells = front ++ (style, c) :: behind →
    t.IsStyleAt (Text.byteLength (front.map Prod.snd)) style

theorem map_snd_styled (layers : List Decoration) (offset : Nat) (text : Text) :
    (styled layers offset text).map Prod.snd = text := by
  induction text generalizing offset with
  | nil => rfl
  | cons c rest ih => rw [styled, List.map_cons, ih]

theorem styleAt_of_styled_eq {layers : List Decoration} {offset : Nat} {text : Text}
    {front behind : List (Option Style × Char)} {style : Option Style} {c : Char}
    (h : styled layers offset text = front ++ (style, c) :: behind) :
    styleAt layers (offset + Text.byteLength (front.map Prod.snd)) = style := by
  induction front generalizing offset text with
  | nil =>
    cases text with
    | nil => cases h
    | cons d rest => exact congrArg Prod.fst (List.cons.inj h).1
  | cons cell front ih =>
    cases text with
    | nil => cases h
    | cons d rest =>
      obtain ⟨hcell, hrest⟩ := List.cons.inj h
      rw [← hcell, List.map_cons, Text.byteLength_cons, ← Nat.add_assoc]
      exact ih hrest

/-- Characters with the styles that layers give them are known by that. -/
theorem eq_styled {layers : List Decoration} (offset : Nat)
    {cells : List (Option Style × Char)}
    (h : ∀ front style c behind, cells = front ++ (style, c) :: behind →
      styleAt layers (offset + Text.byteLength (front.map Prod.snd)) = style) :
    cells = styled layers offset (cells.map Prod.snd) := by
  induction cells generalizing offset with
  | nil => rfl
  | cons cell rest ih =>
    obtain ⟨style, c⟩ := cell
    have hfirst : styleAt layers offset = style := h [] style c rest rfl
    have hrest := ih (offset + c.utf8Size) fun front style' c' behind heq => by
      rw [Nat.add_assoc]
      exact h ((style, c) :: front) style' c' behind (congrArg _ heq)
    rw [List.map_cons, styled, hfirst, ← hrest]

/-- The characters of a text have their styles from the layers of the terminal, and no others. -/
theorem areCellsOf_iff {t : Terminal} {text : Text} {cells : List (Option Style × Char)} :
    t.AreCellsOf text cells ↔ cells = styled t.layers 0 text := by
  constructor
  · intro h
    rw [← h.characters]
    refine eq_styled 0 fun front style c behind heq => ?_
    rw [Nat.zero_add]
    exact isStyleAt_iff.1 (h.styles front style c behind heq)
  · intro h
    subst h
    refine ⟨map_snd_styled t.layers 0 text, ?_⟩
    intro front style c behind heq
    have hstyle := styleAt_of_styled_eq heq
    rw [Nat.zero_add] at hstyle
    exact isStyleAt_iff.2 hstyle

/-! ## Runs -/

/-- The characters of runs, each with the style of its run. -/
def cellsOf (rs : List (Option Style × Text)) : List (Option Style × Char) :=
  rs.flatMap fun r => r.2.map fun c => (r.1, c)

/-- The longest runs of characters of one style. -/
structure AreRunsOf (rs : List (Option Style × Text)) (cells : List (Option Style × Char)) :
    Prop where
  /-- Together they are all characters. -/
  whole : cellsOf rs = cells
  /-- Each run has characters. -/
  nonempty : ∀ r ∈ rs, r.2 ≠ []
  /-- No run can be made longer by the one behind it. -/
  longest : rs.IsChain fun r next => r.1 ≠ next.1

theorem AreRunsOf.consToRun {rs : List (Option Style × Text)} {cells : List (Option Style × Char)}
    (h : AreRunsOf rs cells) (style : Option Style) (c : Char) :
    AreRunsOf (consToRun style c rs) ((style, c) :: cells) := by
  obtain ⟨hwhole, hnonempty, hlongest⟩ := h
  subst hwhole
  cases rs with
  | nil => exact ⟨rfl, List.forall_mem_singleton.2 (List.cons_ne_nil _ _), List.isChain_singleton _⟩
  | cons first rest =>
    obtain ⟨style', run⟩ := first
    rw [Terminal.consToRun]
    by_cases hsame : style' = style
    · subst hsame
      rw [if_pos rfl]
      refine ⟨rfl, ?_, ?_⟩
      · exact List.forall_mem_cons.2
          ⟨List.cons_ne_nil _ _, (List.forall_mem_cons.1 hnonempty).2⟩
      · rw [List.isChain_cons] at hlongest ⊢
        exact hlongest
    · rw [if_neg hsame]
      refine ⟨rfl, List.forall_mem_cons.2 ⟨List.cons_ne_nil _ _, hnonempty⟩, ?_⟩
      exact List.isChain_cons_cons.2 ⟨Ne.symm hsame, hlongest⟩

theorem areRunsOf_runs (cells : List (Option Style × Char)) : AreRunsOf (runs cells) cells := by
  induction cells with
  | nil => exact ⟨rfl, fun r hr => absurd hr List.not_mem_nil, List.isChain_nil⟩
  | cons cell rest ih => exact ih.consToRun cell.1 cell.2

/-- A run in front of characters that do not go on with its style is their first run. -/
theorem runs_append {style : Option Style} {run : Text} (hne : run ≠ [])
    {cells : List (Option Style × Char)} (hnext : ∀ r ∈ (runs cells).head?, style ≠ r.1) :
    runs ((run.map fun c => (style, c)) ++ cells) = (style, run) :: runs cells := by
  induction run with
  | nil => exact absurd rfl hne
  | cons c more ih =>
    rw [List.map_cons, List.cons_append, runs]
    cases more with
    | nil =>
      rw [List.map_nil, List.nil_append]
      cases hruns : runs cells with
      | nil => rfl
      | cons first rest =>
        rw [hruns] at hnext
        exact if_neg (Ne.symm (hnext first rfl))
    | cons d more =>
      rw [ih (List.cons_ne_nil _ _)]
      exact if_pos rfl

/-- Characters have one division into their longest runs. -/
theorem AreRunsOf.eq_runs {rs : List (Option Style × Text)} {cells : List (Option Style × Char)}
    (h : AreRunsOf rs cells) : rs = runs cells := by
  obtain ⟨hwhole, hnonempty, hlongest⟩ := h
  subst hwhole
  induction rs with
  | nil => rfl
  | cons r rest ih =>
    obtain ⟨hnext, hrest⟩ := List.isChain_cons.1 hlongest
    obtain ⟨hne, hnonempty⟩ := List.forall_mem_cons.1 hnonempty
    have hruns := ih hnonempty hrest
    rw [hruns] at hnext
    have hfirst := runs_append hne hnext
    rw [← hruns] at hfirst
    exact hfirst.symm

theorem areRunsOf_iff {rs : List (Option Style × Text)} {cells : List (Option Style × Char)} :
    AreRunsOf rs cells ↔ rs = runs cells := by
  constructor
  · intro h
    exact h.eq_runs
  · intro h
    rw [h]
    exact areRunsOf_runs cells

/-! ## Reading a rendered text -/

/-- A screen shows the characters of runs in their styles. -/
theorem AreRunsOf.read {rs : List (Option Style × Text)} {cells : List (Option Style × Char)}
    (h : AreRunsOf rs cells) (hplain : '\x1b' ∉ cells.map Prod.snd) :
    Screen.blank.read (rs.flatMap showRun) =
      ⟨cells.map fun cell => (.ofStyle? cell.1, cell.2), .plain, .characters⟩ := by
  obtain ⟨hwhole, -, -⟩ := h
  subst hwhole
  have hrun : ∀ r ∈ rs, '\x1b' ∉ r.2 := by
    intro r hr hin
    refine hplain (List.mem_map.2 ⟨(r.1, '\x1b'), ?_, rfl⟩)
    exact List.mem_flatMap.2 ⟨r, hr, List.mem_map.2 ⟨_, hin, rfl⟩⟩
  rw [Screen.blank, Screen.read_runs [] hrun, List.nil_append, cellsOf, List.map_flatMap]
  simp only [List.map_map]
  rfl

/-- Rendering a text gives a result on every terminal: there is one way to give its characters the
styles that are seen at their first bytes, and one way to divide these into longest runs, and the
result is made of the runs, with a style around each that has one. So each style that is started is
ended behind its run. Read by a screen, it shows the characters of a text without escapes, each in
its style, and no style is left. -/
theorem render_exact (t : Terminal) (text : Text) :
    t.render? text = some (t.render text) ∧
      ∃ cells rs, (∀ other, t.AreCellsOf text other ↔ other = cells) ∧
        (∀ other, AreRunsOf other cells ↔ other = rs) ∧
        t.render text = rs.flatMap showRun ∧
        (∀ front style run behind, rs = front ++ (some style, run) :: behind →
          t.render text = front.flatMap showRun ++ (startStyle style ++ run ++ endStyle) ++
            behind.flatMap showRun) ∧
        ('\x1b' ∉ text →
          Screen.blank.read (t.render text) =
              ⟨cells.map fun cell => (.ofStyle? cell.1, cell.2), .plain, .characters⟩ ∧
            (Screen.blank.read (t.render text)).cells.map Prod.snd = text) := by
  refine ⟨t.render?_eq text, styled t.layers 0 text, runs (styled t.layers 0 text),
    fun _ => areCellsOf_iff, fun _ => areRunsOf_iff, rfl, ?_, ?_⟩
  · intro front style run behind hsplit
    rw [render, hsplit, List.flatMap_append, List.flatMap_cons, List.append_assoc]
    rfl
  · intro hplain
    have hcharacters := map_snd_styled t.layers 0 text
    have hread := (areRunsOf_runs (styled t.layers 0 text)).read (by rw [hcharacters]; exact hplain)
    refine ⟨hread, ?_⟩
    rw [render, hread, List.map_map]
    exact hcharacters

/-- A terminal with three live decorations. The first one is partly below the second, and has a span
that ends before it starts; the last one starts inside a character and ends behind the text. -/
def overlapping : Terminal :=
  ⟨[some ⟨.utility, ⟨.ofNat 0x040404, false, none⟩, [⟨0, 4⟩, ⟨6, 2⟩]⟩, none,
    some ⟨.variant, ⟨.ofNat 0x010101, true, none⟩, [⟨0, 3⟩]⟩,
    some ⟨.utility, ⟨.ofNat 0x050505, false, some 600⟩, [⟨4, 100⟩]⟩]⟩

theorem layers_overlapping : overlapping.layers =
    [⟨.utility, ⟨.ofNat 0x040404, false, none⟩, [⟨0, 4⟩, ⟨6, 2⟩]⟩,
      ⟨.utility, ⟨.ofNat 0x050505, false, some 600⟩, [⟨4, 100⟩]⟩,
      ⟨.variant, ⟨.ofNat 0x010101, true, none⟩, [⟨0, 3⟩]⟩] := by
  simp [layers, live, overlapping, specificity, List.mergeSort]

theorem render_exact_overlapping :
    '\x1b' ∉ "md:é x".toList ∧
      Screen.blank.read (overlapping.render "md:é x".toList) =
        ⟨("md:".toList.map fun c => (⟨false, true, some (1, 1, 1)⟩, c)) ++
          [(⟨false, false, some (4, 4, 4)⟩, 'é')] ++
          (" x".toList.map fun c => (⟨true, false, some (5, 5, 5)⟩, c)), .plain, .characters⟩ := by
  obtain ⟨-, cells, rs, hcells, -, -, -, hread⟩ := render_exact overlapping "md:é x".toList
  have hplain : '\x1b' ∉ "md:é x".toList := by decide
  have hstyled : styled overlapping.layers 0 "md:é x".toList = cells :=
    (hcells _).1 (areCellsOf_iff.2 rfl)
  refine ⟨hplain, ?_⟩
  rw [(hread hplain).1, ← hstyled, layers_overlapping]
  decide

end Terminal

end ClassHighlight
