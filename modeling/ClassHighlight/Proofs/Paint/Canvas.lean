import ClassHighlight.Paint.Canvas

/-!
# What a canvas shows

Painting never fails: a span is cut off to bounds that are in order and on the canvas. A place then
has the style of the last layer that covers it, and the one it had before if there is none. Writing
never fails either, since each character starts at a place of the canvas, and it ends and starts a
style just where one run of characters ends and the next one starts.
-/

namespace ClassHighlight

namespace Canvas

/-- Painting changes the places between the bounds. -/
theorem exists_fill? {canvas : Canvas} {start stop : Nat} (hle : start ≤ stop)
    (hstop : stop ≤ canvas.length) (style : Style) :
    ∃ painted, canvas.fill? start stop style = some painted ∧ painted.length = canvas.length ∧
      ∀ i, painted[i]? = if start ≤ i ∧ i < stop then some (some style) else canvas[i]? := by
  refine ⟨_, if_pos ⟨hle, hstop⟩, ?_, ?_⟩
  · simp only [List.length_append, List.length_take, List.length_replicate, List.length_drop]
    omega
  · intro i
    have hfront :
        (canvas.take start ++ List.replicate (stop - start) (some style)).length = stop := by
      rw [List.length_append, List.length_take, List.length_replicate]
      omega
    by_cases hbehind : stop ≤ i
    · rw [List.getElem?_append_right (by omega), hfront, List.getElem?_drop, if_neg (by omega)]
      congr 1
      omega
    · rw [List.getElem?_append_left (by omega)]
      by_cases hbefore : i < start
      · rw [List.getElem?_append_left (by rw [List.length_take]; omega), if_neg (by omega),
          List.getElem?_take_of_lt hbefore]
      · rw [List.getElem?_append_right (by rw [List.length_take]; omega), if_pos (by omega),
          List.getElem?_replicate_of_lt (by rw [List.length_take]; omega)]

/-- A canvas became another one by painting: where it was painted it has another style, and the
other places are as before. -/
structure IsPaintedFrom (painted canvas : Canvas) (coat : Nat → Option Style) : Prop where
  /-- Painting leaves the size. -/
  length_eq : painted.length = canvas.length
  /-- What each place shows. -/
  place : ∀ (i : Nat) (style : Option Style), canvas[i]? = some style →
    painted[i]? = some ((coat i).or style)

/-- Each span is painted, as far as it is on the canvas. -/
theorem exists_paintSpan? (canvas : Canvas) (style : Style) (s : Span) :
    ∃ painted, canvas.paintSpan? style s = some painted ∧
      painted.IsPaintedFrom canvas fun i => if s.contains i then some style else none := by
  obtain ⟨painted, hpainted, hlength, hplace⟩ :=
    exists_fill? (Nat.min_le_right s.start (min s.stop canvas.length))
      (Nat.min_le_right s.stop canvas.length) style
  refine ⟨painted, hpainted, hlength, ?_⟩
  intro i before hbefore
  have hlt : i < canvas.length := (List.getElem?_eq_some_iff.1 hbefore).1
  rw [hplace i, hbefore]
  by_cases hcontains : s.contains i
  · rw [if_pos hcontains]
    rw [Span.contains_iff] at hcontains
    rw [if_pos (by omega)]
    rfl
  · rw [if_neg hcontains]
    rw [Span.contains_iff] at hcontains
    rw [if_neg (by omega)]
    rfl

/-- What is painted later is seen. -/
theorem exists_foldlM {α : Type} {paint : Canvas → α → Option Canvas}
    {coat : α → Nat → Option Style}
    (hpaint : ∀ canvas x, ∃ painted, paint canvas x = some painted ∧
      painted.IsPaintedFrom canvas (coat x)) (xs : List α) (canvas : Canvas) :
    ∃ painted, xs.foldlM paint canvas = some painted ∧
      painted.IsPaintedFrom canvas fun i => xs.reverse.findSome? fun x => coat x i := by
  induction xs generalizing canvas with
  | nil => exact ⟨canvas, rfl, rfl, fun _ _ h => h⟩
  | cons x rest ih =>
    obtain ⟨first, hfirst, hlength, hplace⟩ := hpaint canvas x
    obtain ⟨painted, hpainted, hlength', hplace'⟩ := ih first
    refine ⟨painted, ?_, hlength'.trans hlength, ?_⟩
    · rw [List.foldlM_cons, hfirst]
      exact hpainted
    · intro i style hstyle
      rw [hplace' i _ (hplace i style hstyle), List.reverse_cons, List.findSome?_append,
        List.findSome?_singleton, Option.or_assoc]

theorem findSome?_ite {α β : Type} (p : α → Bool) (b : β) (xs : List α) :
    (xs.findSome? fun x => if p x then some b else none) = if xs.any p then some b else none := by
  induction xs with
  | nil => rfl
  | cons x rest ih =>
    rw [List.findSome?_cons, List.any_cons, ih]
    cases p x <;> rfl

/-- Each decoration is painted in its style. -/
theorem exists_paintLayer? (canvas : Canvas) (d : Decoration) :
    ∃ painted, canvas.paintLayer? d = some painted ∧
      painted.IsPaintedFrom canvas fun i => if d.covers i then some d.style else none := by
  obtain ⟨painted, hpainted, h⟩ :=
    exists_foldlM (fun canvas s => exists_paintSpan? canvas d.style s) d.spans canvas
  refine ⟨painted, hpainted, ?_⟩
  simp only [findSome?_ite, List.any_reverse] at h
  exact h

/-- The layers give a place the style of the last one that covers it. -/
theorem findSome?_reverse_layers (layers : List Decoration) (i : Nat) :
    (layers.reverse.findSome? fun d => if d.covers i then some d.style else none) =
      Terminal.styleAt layers i := by
  rw [Terminal.styleAt, List.getLast?_filter]
  induction layers.reverse with
  | nil => rfl
  | cons d rest ih =>
    rw [List.findSome?_cons, List.find?_cons, ih]
    cases d.covers i <;> rfl

/-- After all layers a canvas shows at each place what they give it. -/
theorem exists_paint? (layers : List Decoration) (length : Nat) :
    ∃ painted, paint? (List.replicate length none) layers = some painted ∧
      ∀ i, i < length → painted[i]? = some (Terminal.styleAt layers i) := by
  obtain ⟨painted, hpainted, h⟩ :=
    exists_foldlM exists_paintLayer? layers (List.replicate length none)
  refine ⟨painted, hpainted, ?_⟩
  intro i hi
  rw [h.place i none (List.getElem?_replicate_of_lt hi), findSome?_reverse_layers, Option.or_none]

end Canvas

namespace Writer

open Terminal

/-- What is still written of some runs when a style was started: the first run goes on with it if it
has that style. -/
def writeRuns (current : Option Style) : List (Option Style × Text) → Text
  | [] => closing current
  | (style, run) :: rest =>
    if style = current then run ++ closing style ++ rest.flatMap showRun
    else closing current ++ ((style, run) :: rest).flatMap showRun

theorem showRun_eq (style : Option Style) (run : Text) :
    showRun (style, run) = opening style ++ run ++ closing style := by
  cases style with
  | none => rw [showRun, opening, closing, List.append_nil, List.nil_append]
  | some style => rfl

theorem writeRuns_none (rs : List (Option Style × Text)) :
    writeRuns none rs = rs.flatMap showRun := by
  cases rs with
  | nil => rfl
  | cons r rest =>
    obtain ⟨style, run⟩ := r
    rw [writeRuns]
    split
    · rename_i hnone
      subst hnone
      rw [List.flatMap_cons, showRun_eq]
      rfl
    · rfl

/-- A style that is gone over to is ended after the characters that have it. -/
theorem writeRuns_switch (current style : Option Style) (run : Text)
    (rs : List (Option Style × Text)) :
    writeRuns current ((style, run) :: rs) =
      (if style = current then [] else closing current ++ opening style) ++ run ++ closing style ++
        rs.flatMap showRun := by
  rw [writeRuns]
  split
  · simp only [List.nil_append]
  · rw [List.flatMap_cons, showRun_eq]
    simp only [List.append_assoc]

/-- A character in front of runs is written after going over to its style. -/
theorem writeRuns_consToRun (current style : Option Style) (c : Char)
    (rs : List (Option Style × Text)) :
    writeRuns current (consToRun style c rs) =
      (if style = current then [] else closing current ++ opening style) ++ [c] ++
        writeRuns style rs := by
  cases rs with
  | nil =>
    rw [consToRun, writeRuns_switch, writeRuns, List.flatMap_nil, List.append_nil]
  | cons r rest =>
    obtain ⟨first, run⟩ := r
    rw [consToRun]
    split
    · rename_i hsame
      rw [hsame, writeRuns_switch, writeRuns, if_pos rfl]
      simp only [List.append_assoc, List.cons_append, List.nil_append]
    · rename_i hother
      rw [writeRuns_switch, writeRuns, if_neg hother]
      simp only [List.append_assoc]

/-- Writing a text from a canvas that shows what some layers give it writes its runs. -/
theorem exists_write? {canvas : Canvas} {layers : List Decoration} (text : Text) (offset : Nat)
    (hcanvas : ∀ i, offset ≤ i → i < offset + Text.byteLength text →
      canvas[i]? = some (styleAt layers i)) (w : Writer) :
    ∃ written, w.write? canvas offset text = some written ∧
      written.finish = w.output ++ writeRuns w.current (runs (styled layers offset text)) := by
  induction text generalizing offset w with
  | nil => exact ⟨w, rfl, rfl⟩
  | cons c rest ih =>
    rw [Text.byteLength_cons] at hcanvas
    have hpos : 0 < c.utf8Size := c.utf8Size_pos
    have hplace := hcanvas offset (Nat.le_refl _) (by omega)
    obtain ⟨written, hwritten, hfinish⟩ := ih (offset + c.utf8Size)
      (fun i hle hlt => hcanvas i (by omega) (by omega))
      ((w.switch (styleAt layers offset)).push c)
    refine ⟨written, ?_, ?_⟩
    · rw [write?, hplace]
      exact hwritten
    · rw [hfinish, styled, runs, writeRuns_consToRun, push, switch]
      split
      · rename_i hsame
        rw [hsame]
        simp only [List.append_assoc, List.nil_append]
      · simp only [List.append_assoc]

end Writer

/-- Painting and writing always give a result: the runs of the text, each in its style. -/
theorem Terminal.render?_eq (t : Terminal) (text : Text) :
    t.render? text = some (t.render text) := by
  obtain ⟨canvas, hcanvas, hplace⟩ := Canvas.exists_paint? t.layers (Text.byteLength text)
  obtain ⟨written, hwritten, hfinish⟩ := Writer.exists_write? text 0
    (fun i _ hlt => hplace i (by omega)) ⟨[], none⟩
  rw [render?]
  simp only [hcanvas, Option.bind_eq_bind, Option.bind_some, hwritten, hfinish]
  rw [Writer.writeRuns_none, List.nil_append, render]

end ClassHighlight
