import ClassHighlight.Paint.Overlay
import ClassHighlight.Paint.Terminal

/-!
# What an overlay shows on a terminal

A terminal takes any paint call. Here it refuses a call that creates a decoration out of turn, or
that names one which was never created or is disposed; an overlay never makes such a call. The
relation `Overlay.Shows` says what is on the terminal, and clearing and applying go from one
instance of it to the next.
-/

namespace ClassHighlight

/-! ## Terminals that refuse -/

namespace Terminal

/-- Whether a handle names a decoration that was created and not disposed. -/
def isAlive (t : Terminal) (handle : Nat) : Bool :=
  (t.slots[handle]?.bind id).isSome

/-- Does what a paint call asks for, unless its handle is not the one that it should be. -/
def perform? (t : Terminal) (call : PaintCall) : Option Terminal :=
  match call with
  | .create handle _ _ => if handle = t.slots.length then some (t.perform call) else none
  | .set handle _ => if t.isAlive handle then some (t.perform call) else none
  | .dispose handle => if t.isAlive handle then some (t.perform call) else none

/-- Does what paint calls ask for, one after the other, unless one of them is refused. -/
def performAll? (t : Terminal) (calls : List PaintCall) : Option Terminal :=
  calls.foldlM perform? t

theorem perform_of_perform? {t t' : Terminal} {call : PaintCall}
    (h : t.perform? call = some t') : t.perform call = t' := by
  cases call <;>
  · simp only [perform?] at h
    split at h
    · exact Option.some.inj h
    · cases h

/-- Calls that are not refused have their usual effect. -/
theorem performAll_of_performAll? {t t' : Terminal} {calls : List PaintCall}
    (h : t.performAll? calls = some t') : t.performAll calls = t' := by
  -- a run that is not refused goes through the same terminals
  induction calls generalizing t with
  | nil => exact Option.some.inj h
  | cons call rest ih =>
    rcases Option.bind_eq_some_iff.1 h with ⟨next, hnext, hrest⟩
    rw [performAll, List.foldl_cons, perform_of_perform? hnext]
    exact ih hrest

theorem performAll?_append (t : Terminal) (first later : List PaintCall) :
    t.performAll? (first ++ later) =
      (t.performAll? first).bind fun next => next.performAll? later :=
  List.foldlM_append

end Terminal

/-! ## Earlier decorations -/

/-- A call for a terminal on which `count` more decorations were created before. -/
def PaintCall.behind (count : Nat) : PaintCall → PaintCall
  | .create handle category style => .create (count + handle) category style
  | .set handle spans => .set (count + handle) spans
  | .dispose handle => .dispose (count + handle)

namespace Terminal

/-- A terminal with the places of earlier decorations in front of its own. -/
def behind (earlier : List (Option Decoration)) (t : Terminal) : Terminal :=
  ⟨earlier ++ t.slots⟩

variable (earlier : List (Option Decoration)) (t : Terminal)

theorem isAlive_behind (handle : Nat) :
    (t.behind earlier).isAlive (earlier.length + handle) = t.isAlive handle := by
  unfold isAlive behind
  rw [List.getElem?_append_right (by omega), Nat.add_sub_cancel_left]

/-- Earlier decorations stay as they are when later ones change. -/
theorem perform?_behind (call : PaintCall) :
    (t.behind earlier).perform? (call.behind earlier.length) =
      (t.perform? call).map (behind earlier) := by
  cases call with
  | create handle category style =>
    have hiff : earlier.length + handle = (t.behind earlier).slots.length ↔
        handle = t.slots.length := by
      simp [behind]
    simp only [PaintCall.behind, perform?, hiff]
    split
    · simp [perform, create, behind]
    · rfl
  | set handle spans =>
    simp only [PaintCall.behind, perform?, isAlive_behind]
    split
    · simp only [perform, set, behind, List.modify, Option.map_some, List.modifyTailIdx_add]
    · rfl
  | dispose handle =>
    simp only [PaintCall.behind, perform?, isAlive_behind]
    split
    · simp [perform, dispose, behind, List.set_append_right]
    · rfl

theorem performAll?_behind (calls : List PaintCall) :
    (t.behind earlier).performAll? (calls.map (PaintCall.behind earlier.length)) =
      (t.performAll? calls).map (behind earlier) := by
  induction calls generalizing t with
  | nil => rfl
  | cons call rest ih =>
    unfold performAll? at ih ⊢
    rw [List.map_cons, List.foldlM_cons, List.foldlM_cons, perform?_behind]
    cases t.perform? call with
    | none => rfl
    | some next => exact ih next

end Terminal

/-! ## What is shown -/

/-- The decorations that show highlights in the colors of a palette. -/
def Decoration.all (palette : Palette) (h : Highlights) : List Decoration :=
  Category.all.map fun c => ⟨c, Style.ofCategory palette c, h.get c⟩

namespace Overlay

/-- What a terminal shows for an overlay: nothing, or highlights in the colors of a palette on the
decorations created last. All earlier decorations are disposed. -/
inductive Shows : Overlay → Terminal → Option (Palette × Highlights) → Prop
  | nothing (count : Nat) : Shows ⟨none, count⟩ ⟨List.replicate count none⟩ none
  | highlights (count : Nat) (palette : Palette) (h : Highlights) :
      Shows ⟨some ⟨palette, .ofFn fun c => count + c.index⟩, count + Category.all.length⟩
        ⟨List.replicate count none ++ (Decoration.all palette h).map some⟩ (some (palette, h))

/-- The calls that create decorations for a palette behind `count` earlier ones. -/
def creations (palette : Palette) (count : Nat) : List PaintCall :=
  Category.all.map fun c => .create (count + c.index) c (Style.ofCategory palette c)

/-- The calls that show highlights on the decorations behind `count` earlier ones. -/
def settings (h : Highlights) (count : Nat) : List PaintCall :=
  Category.all.map fun c => .set (count + c.index) (h.get c)

/-- The calls that dispose the decorations behind `count` earlier ones. -/
def disposals (count : Nat) : List PaintCall :=
  Category.all.map fun c => .dispose (count + c.index)

section Calls

variable (count : Nat) (palette : Palette) (h : Highlights)

/-- What calls do on a terminal without decorations they do behind disposed ones. -/
theorem performAll?_disposed {calls : List PaintCall} {slots slots' : List (Option Decoration)}
    (hcalls : (⟨slots⟩ : Terminal).performAll? calls = some ⟨slots'⟩) :
    (⟨List.replicate count none ++ slots⟩ : Terminal).performAll?
        (calls.map (PaintCall.behind count)) = some ⟨List.replicate count none ++ slots'⟩ := by
  have hbehind := Terminal.performAll?_behind (List.replicate count none) ⟨slots⟩ calls
  rw [List.length_replicate, hcalls] at hbehind
  exact hbehind

theorem performAll?_creations :
    (⟨List.replicate count none⟩ : Terminal).performAll? (creations palette count) =
      some ⟨List.replicate count none ++ (Decoration.all palette .empty).map some⟩ := by
  have hcalls := performAll?_disposed count
    (show (⟨[]⟩ : Terminal).performAll? (creations palette 0) =
      some ⟨(Decoration.all palette .empty).map some⟩ from rfl)
  rw [List.append_nil] at hcalls
  exact hcalls

theorem performAll?_settings (shown : Highlights) :
    (⟨List.replicate count none ++ (Decoration.all palette shown).map some⟩ : Terminal).performAll?
        (settings h count) =
      some ⟨List.replicate count none ++ (Decoration.all palette h).map some⟩ :=
  performAll?_disposed count
    (show (⟨(Decoration.all palette shown).map some⟩ : Terminal).performAll? (settings h 0) =
      some ⟨(Decoration.all palette h).map some⟩ from rfl)

theorem performAll?_disposals :
    (⟨List.replicate count none ++ (Decoration.all palette h).map some⟩ : Terminal).performAll?
        (disposals count) = some ⟨List.replicate (count + Category.all.length) none⟩ := by
  have hcalls := performAll?_disposed count
    (show (⟨(Decoration.all palette h).map some⟩ : Terminal).performAll? (disposals 0) =
      some ⟨List.replicate Category.all.length none⟩ from rfl)
  rw [List.replicate_append_replicate] at hcalls
  exact hcalls

end Calls

section Shows

variable {o : Overlay} {t : Terminal} {shown? : Option (Palette × Highlights)}

/-- Only a live overlay shows highlights. -/
theorem Shows.isLive_eq (h : o.Shows t shown?) : o.isLive = shown?.isSome := by
  cases h <;> rfl

/-- What a live set shows can be found on the terminal by its handles. -/
theorem Shows.of_live (h : o.Shows t shown?) {set : LiveSet} (hset : o.live? = some set) :
    ∃ palette highlights, shown? = some (palette, highlights) ∧
      ∀ c, t.slots[set.handles.get c]? =
        some (some ⟨c, Style.ofCategory palette c, highlights.get c⟩) := by
  cases h with
  | nothing count => cases hset
  | highlights count palette h =>
    cases hset
    refine ⟨palette, h, rfl, ?_⟩
    intro c
    rw [ByCategory.get_ofFn, List.getElem?_append_right (by simp), List.length_replicate,
      Nat.add_sub_cancel_left]
    cases c <;> rfl

/-- There are no other decorations than those of the live set. -/
theorem Shows.length_live (h : o.Shows t shown?) :
    t.live.length = if o.isLive then Category.all.length else 0 := by
  cases h with
  | nothing count => simp [Terminal.live, isLive]
  | highlights count palette h => simp [Terminal.live, isLive, Decoration.all]

/-- After clearing, nothing is shown. -/
theorem Shows.clear (h : o.Shows t shown?) :
    ∃ t', t.performAll? o.clear.2 = some t' ∧ o.clear.1.Shows t' none := by
  cases h with
  | nothing count => exact ⟨_, rfl, .nothing count⟩
  | highlights count palette h =>
    exact ⟨_, performAll?_disposals count palette h, .nothing _⟩

theorem performAll?_create (count : Nat) (palette : Palette) (h : Highlights) :
    (⟨List.replicate count none⟩ : Terminal).performAll?
        (creations palette count ++ settings h count) =
      some ⟨List.replicate count none ++ (Decoration.all palette h).map some⟩ := by
  rw [Terminal.performAll?_append, performAll?_creations]
  exact performAll?_settings count palette h .empty

/-- After applying highlights, these are shown in the colors of the palette, and nothing else. -/
theorem Shows.apply (hshows : o.Shows t shown?) (palette : Palette) (h : Highlights) :
    ∃ t', t.performAll? (o.apply palette h).2 = some t' ∧
      (o.apply palette h).1.Shows t' (some (palette, h)) := by
  cases hshows with
  | nothing count =>
    exact ⟨_, performAll?_create count palette h, .highlights count palette h⟩
  | highlights count before shown =>
    by_cases hsame : before = palette
    · -- the live decorations have the right colors
      unfold Overlay.apply prepare
      simp only [hsame, if_true, List.nil_append]
      exact ⟨_, performAll?_settings count palette h shown, .highlights count palette h⟩
    · -- they are disposed, and others are created behind them
      unfold Overlay.apply prepare
      simp only [hsame, if_false]
      refine ⟨⟨List.replicate (count + Category.all.length) none ++
        (Decoration.all palette h).map some⟩, ?_, .highlights _ palette h⟩
      show Terminal.performAll? _ (disposals count ++
        creations palette (count + Category.all.length) ++
        settings h (count + Category.all.length)) = _
      rw [List.append_assoc, Terminal.performAll?_append, performAll?_disposals]
      exact performAll?_create _ palette h

end Shows

end Overlay

end ClassHighlight
