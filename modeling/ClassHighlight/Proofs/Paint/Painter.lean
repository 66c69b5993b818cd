import ClassHighlight.Paint.InPlace
import ClassHighlight.Proofs.Paint.Canvas
import ClassHighlight.Proofs.Paint.Overlay

/-!
# Painting has no memory

A painter is an overlay together with the terminal that its calls have led to. So a terminal shows
what was applied last, on decorations of which all earlier ones are disposed, or it shows nothing;
and what it renders depends only on its live decorations.
-/

namespace ClassHighlight

/-! ## Rendering live decorations -/

namespace Terminal

/-- Disposed decorations never show through. -/
theorem render_congr {t t' : Terminal} (h : t.live = t'.live) (text : Text) :
    t.render text = t'.render text := by
  unfold render layers
  rw [h]

theorem flatMap_showRun_consToRun (c : Char) (rs : List (Option Style × Text)) :
    (consToRun none c rs).flatMap showRun = c :: rs.flatMap showRun := by
  cases rs with
  | nil => rfl
  | cons r rest =>
    obtain ⟨first, run⟩ := r
    rw [consToRun]
    split
    · rename_i hfirst
      subst hfirst
      rfl
    · rfl

theorem flatMap_showRun_styled_nil (offset : Nat) (text : Text) :
    (runs (styled [] offset text)).flatMap showRun = text := by
  induction text generalizing offset with
  | nil => rfl
  | cons c text ih =>
    show (consToRun none c (runs (styled [] (offset + c.utf8Size) text))).flatMap showRun = _
    rw [flatMap_showRun_consToRun, ih]

/-- Without live decorations a text is shown as it is. -/
theorem render_of_live_eq_nil {t : Terminal} (h : t.live = []) (text : Text) :
    t.render text = text := by
  have hlayers : t.layers = [] := by
    rw [layers, h, List.mergeSort_nil]
  rw [render, hlayers, flatMap_showRun_styled_nil]

theorem performAll_append (t : Terminal) (first later : List PaintCall) :
    t.performAll (first ++ later) = (t.performAll first).performAll later :=
  List.foldl_append

end Terminal

namespace Overlay

section Shows

variable {o : Overlay} {t : Terminal}

/-- Where nothing is shown, no decoration is live. -/
theorem Shows.live_eq_nil (h : o.Shows t none) : t.live = [] := by
  cases h with
  | nothing count => simp [Terminal.live]

/-- The live decorations are those that show the highlights. -/
theorem Shows.live_eq {palette : Palette} {highlights : Highlights}
    (h : o.Shows t (some (palette, highlights))) : t.live = Decoration.all palette highlights := by
  cases h with
  | highlights count palette h => simp [Terminal.live]

/-- An overlay knows how many decorations were created. -/
theorem Shows.length_slots {shown? : Option (Palette × Highlights)} (h : o.Shows t shown?) :
    t.slots.length = o.created := by
  cases h with
  | nothing count => simp
  | highlights count palette h => simp [Decoration.all]

end Shows

end Overlay

namespace Painter

/-- The painter of an overlay whose calls have led to a terminal. -/
def ofOverlay (o : Overlay) (t : Terminal) : Painter :=
  ⟨t, o.live?.map fun set => ⟨set.palette, set.handles.toList⟩⟩

/-- The painter after more calls to its terminal. -/
def after (p : Painter) (calls : List PaintCall) : Painter :=
  { p with terminal := p.terminal.performAll calls }

theorem after_append (p : Painter) (first later : List PaintCall) :
    p.after (first ++ later) = (p.after first).after later := by
  unfold after
  rw [Terminal.performAll_append]

namespace InPlace

open ClassHighlight.InPlace

/-! ## Calls -/

/-- What makes one paint call for each of some things makes these calls in order. -/
theorem on_forM {α : Type} {f : α → Action Unit} {call : α → PaintCall}
    (hcall : ∀ a p, (f a).on p = (.ok (), p.after [call a])) (as : List α) (p : Painter) :
    (as.forM f).on p = (.ok (), p.after (as.map call)) := by
  induction as generalizing p with
  | nil => rfl
  | cons a as ih =>
    have hforM : (a :: as).forM f = f a >>= fun _ => as.forM f := rfl
    rw [hforM, on_bind_of_ok (hcall a p), ih, ← after_append]
    rfl

theorem on_createDecoration (c : Category) (style : Style) (p : Painter) :
    (createDecoration c style).on p = (.ok p.terminal.slots.length,
      p.after [.create p.terminal.slots.length c style]) := by
  simp only [createDecoration, on_bind, on_get, on_modify, on_pure]
  rfl

/-- Decorations that are created one after the other have consecutive handles. -/
theorem on_mapM_createDecoration (style : Category → Style) (cs : List Category) (p : Painter) :
    (cs.mapM fun c => createDecoration c (style c)).on p =
      (.ok ((cs.zipIdx p.terminal.slots.length).map Prod.snd),
        p.after ((cs.zipIdx p.terminal.slots.length).map fun x =>
          .create x.2 x.1 (style x.1))) := by
  induction cs generalizing p with
  | nil => rfl
  | cons c cs ih =>
    have hlength : (p.after [.create p.terminal.slots.length c (style c)]).terminal.slots.length =
        p.terminal.slots.length + 1 := by
      simp [after, Terminal.performAll, Terminal.perform, Terminal.create]
    rw [List.mapM_cons, on_bind_of_ok (on_createDecoration c (style c) p), on_bind_of_ok (ih _),
      hlength, ← after_append]
    rfl

theorem on_createSet (palette : Palette) (p : Painter) :
    (createSet palette).on p =
      (.ok ⟨palette, (ByCategory.ofFn fun c => p.terminal.slots.length + c.index).toList⟩,
        p.after (Overlay.creations palette p.terminal.slots.length)) := by
  rw [createSet, on_bind_of_ok (on_mapM_createDecoration (Style.ofCategory palette) _ p)]
  rfl

/-- Each category has its handle in a set. -/
theorem on_paint (palette : Palette) (handles : ByCategory Nat) (h : Highlights) (c : Category)
    (p : Painter) :
    (paint ⟨palette, handles.toList⟩ h c).on p =
      (.ok (), p.after [.set (handles.get c) (h.get c)]) := by
  cases c <;> rfl

/-! ## Operations -/

section Operations

variable {o : Overlay} {t : Terminal} {shown? : Option (Palette × Highlights)}

theorem on_clear (o : Overlay) (t : Terminal) :
    clear.on (ofOverlay o t) =
      (.ok o.isLive, ofOverlay o.clear.1 (t.performAll o.clear.2)) := by
  obtain ⟨live?, created⟩ := o
  cases live? with
  | none => rfl
  | some set =>
    have hdispose (handle : Nat) (p : Painter) :
        (dispose handle).on p = (.ok (), p.after [.dispose handle]) := rfl
    unfold clear
    simp only [on_bind, on_get, ofOverlay, Option.map_some, on_modify, on_forM hdispose, on_pure]
    rfl

/-- Where nothing is live, a set is created behind all earlier decorations. -/
theorem on_getOrCreate_of_none (hshows : o.Shows t shown?) (hnone : o.live? = none)
    (palette : Palette) :
    (getOrCreate palette).on (ofOverlay o t) =
      (.ok ⟨palette, (o.create palette).2.1.handles.toList⟩,
        ofOverlay (o.create palette).1 (t.performAll (o.create palette).2.2)) := by
  have hset : (ofOverlay o t).set? = none := by rw [ofOverlay, hnone, Option.map_none]
  have hlength : (ofOverlay o t).terminal.slots.length = o.created := hshows.length_slots
  unfold getOrCreate
  simp only [on_bind, on_get, hset, on_createSet, on_modify, on_pure, hlength]
  rfl

theorem on_getOrCreate_of_some {p : Painter} {set : HandleSet} (hset : p.set? = some set)
    (palette : Palette) : (getOrCreate palette).on p = (.ok set, p) := by
  unfold getOrCreate
  simp only [on_bind, on_get, hset, on_pure]

/-- The decorations are those that the overlay prepares. -/
theorem on_prepare (hshows : o.Shows t shown?) (palette : Palette) :
    (prepare palette).on (ofOverlay o t) =
      (.ok ⟨palette, (o.prepare palette).2.1.handles.toList⟩,
        ofOverlay (o.prepare palette).1 (t.performAll (o.prepare palette).2.2)) := by
  unfold prepare Overlay.prepare
  cases hlive : o.live? with
  | none =>
    have hset : (ofOverlay o t).set? = none := by rw [ofOverlay, hlive, Option.map_none]
    simp only [on_bind, on_get, hset, Option.any_none, Bool.false_eq_true, if_false]
    exact on_getOrCreate_of_none hshows hlive palette
  | some set =>
    have hset : (ofOverlay o t).set? = some ⟨set.palette, set.handles.toList⟩ := by
      rw [ofOverlay, hlive, Option.map_some]
    by_cases hsame : set.palette = palette
    · simp only [on_bind, on_get, hset, Option.any_some, hsame, ne_eq, not_true_eq_false,
        decide_false, Bool.false_eq_true, if_false, if_true]
      rw [on_getOrCreate_of_some hset, hsame]
      rfl
    · -- the wrong colors are cleared first, and then nothing is live
      obtain ⟨t', hcalls, hcleared⟩ := hshows.clear
      rw [← Terminal.performAll_of_performAll? hcalls] at hcleared
      have hnone : o.clear.1.live? = none := by
        rw [Overlay.clear, hlive]
      simp only [on_bind, on_get, hset, Option.any_some, hsame, ne_eq, not_false_eq_true,
        decide_true, if_true, if_false, on_clear]
      rw [on_getOrCreate_of_none hcleared hnone, ← Terminal.performAll_append]

/-- Applying paints on the decorations that the overlay prepares. -/
theorem on_apply (hshows : o.Shows t shown?) (palette : Palette) (h : Highlights) :
    (apply palette h).on (ofOverlay o t) =
      (.ok (), ofOverlay (o.apply palette h).1 (t.performAll (o.apply palette h).2)) := by
  rw [apply, on_bind_of_ok (on_prepare hshows palette), on_forM (on_paint palette _ h)]
  unfold Overlay.apply
  rw [Terminal.performAll_append]
  rfl

theorem on_perform (hshows : o.Shows t shown?) (op : Overlay.Operation) :
    (perform op).on (ofOverlay o t) =
      (.ok (o.perform op).2.2, ofOverlay (o.perform op).1 (t.performAll (o.perform op).2.1)) := by
  cases op with
  | apply palette h =>
    rw [perform, on_bind_of_ok (on_apply hshows palette h)]
    rfl
  | clear =>
    rw [perform, on_bind_of_ok (on_clear o t)]
    rfl

end Operations

/-! ## Runs -/

/-- What operations leave shown: what was applied last, unless it was cleared. -/
def shownAfter : Overlay.Operation → Option (Palette × Highlights)
  | .apply palette h => some (palette, h)
  | .clear => none

/-- An operation shows what it is to show, whatever was shown before. -/
theorem exists_on_perform {o : Overlay} {t : Terminal} {shown? : Option (Palette × Highlights)}
    (hshows : o.Shows t shown?) (op : Overlay.Operation) :
    ∃ o' t', (perform op).on (ofOverlay o t) = (.ok (o.perform op).2.2, ofOverlay o' t') ∧
      o'.Shows t' (shownAfter op) := by
  rw [on_perform hshows op]
  refine ⟨_, _, rfl, ?_⟩
  cases op with
  | apply palette h =>
    obtain ⟨t', hcalls, happlied⟩ := hshows.apply palette h
    rw [← Terminal.performAll_of_performAll? hcalls] at happlied
    exact happlied
  | clear =>
    obtain ⟨t', hcalls, hcleared⟩ := hshows.clear
    rw [← Terminal.performAll_of_performAll? hcalls] at hcleared
    exact hcleared

/-- A run shows what its last operation is to show, or what was shown before. -/
theorem exists_on_run {o : Overlay} {t : Terminal} {shown? : Option (Palette × Highlights)}
    (hshows : o.Shows t shown?) (ops : List Overlay.Operation) :
    ∃ o' t', (run ops).on (ofOverlay o t) = (.ok (), ofOverlay o' t') ∧
      o'.Shows t' ((ops.getLast?.map shownAfter).getD shown?) := by
  induction ops generalizing o t shown? with
  | nil => exact ⟨o, t, rfl, hshows⟩
  | cons op ops ih =>
    obtain ⟨o', t', hperform, hshows'⟩ := exists_on_perform hshows op
    obtain ⟨o'', t'', hrun, hlast⟩ := ih hshows'
    refine ⟨o'', t'', ?_, ?_⟩
    · have hcons : run (op :: ops) = (do let _ ← perform op) >>= fun _ => run ops := rfl
      rw [hcons, on_bind_of_ok (on_bind_of_ok hperform _), hrun]
    · cases hrest : ops.getLast? with
      | none =>
        rw [List.getLast?_eq_none_iff] at hrest
        subst hrest
        exact hlast
      | some last =>
        rw [hrest] at hlast
        rw [List.getLast?_cons, hrest]
        exact hlast

/-- Whatever was painted before, after each operation there are no live decorations or one for each
category. The live ones show what was applied last, if it was not cleared, and a text is then rendered
as on a fresh terminal to which only that is applied. If nothing was applied or it was cleared, none
is live and a text is rendered as it is. Painting never fails. -/
theorem run_has_no_memory (ops : List Overlay.Operation) :
    ∃ p, (run ops).on empty = (.ok (), p) ∧
      (p.terminal.live.length = 0 ∨ p.terminal.live.length = 4) ∧
      match ops.getLast? with
      | some (.apply palette h) =>
        p.terminal.live = Decoration.all palette h ∧
        ∃ fresh, (run [.apply palette h]).on empty = (.ok (), fresh) ∧
          p.terminal.live = fresh.terminal.live ∧
          ∀ text, ∃ shown, p.terminal.render? text = some shown ∧
            fresh.terminal.render? text = some shown
      | _ => p.terminal.live = [] ∧ ∀ text, p.terminal.render? text = some text := by
  obtain ⟨o, t, hrun, hshows⟩ := exists_on_run (.nothing 0) ops
  refine ⟨ofOverlay o t, hrun, ?_⟩
  have hnothing (h : o.Shows t none) : (t.live.length = 0 ∨ t.live.length = 4) ∧
      t.live = [] ∧ ∀ text, t.render? text = some text := by
    have hlive := h.live_eq_nil
    refine ⟨Or.inl (List.length_eq_zero_iff.mpr hlive), hlive, fun text => ?_⟩
    rw [Terminal.render?_eq, Terminal.render_of_live_eq_nil hlive]
  cases hlast : ops.getLast? with
  | none =>
    rw [hlast] at hshows
    exact hnothing hshows
  | some op =>
    rw [hlast] at hshows
    cases op with
    | clear => exact hnothing hshows
    | apply palette h =>
      obtain ⟨o', t', hfresh, hshows'⟩ := exists_on_run (.nothing 0) [.apply palette h]
      have hlive : t.live = t'.live := hshows.live_eq.trans hshows'.live_eq.symm
      have hfour : t.live.length = 4 := by
        rw [hshows.live_eq]
        rfl
      refine ⟨Or.inr hfour, hshows.live_eq, ofOverlay o' t', hfresh, hlive, fun text => ?_⟩
      refine ⟨t.render text, Terminal.render?_eq t text, ?_⟩
      rw [Terminal.render_congr hlive]
      exact Terminal.render?_eq t' text

end InPlace

end Painter

end ClassHighlight
