import ClassHighlight.InPlace
import ClassHighlight.Paint.Overlay
import ClassHighlight.Paint.Terminal

/-!
# Painting in place

An overlay and the terminal that it paints on, changed call by call. The terminal chooses the
handles, and the overlay keeps what it was given: a list with one handle for each category, which it
looks up by the category's index. A handle that was not kept would end the painting.
-/

namespace ClassHighlight

/-- Decorations that a terminal has created. -/
structure HandleSet where
  /-- The palette that they were made for. -/
  palette : Palette
  /-- Their handles by the indices of the categories. -/
  handles : List Nat
deriving DecidableEq, Repr

/-- A terminal, and the overlay that paints on it. -/
structure Painter where
  /-- The terminal. -/
  terminal : Terminal
  /-- The decorations that are alive, as far as the overlay knows. -/
  set? : Option HandleSet
deriving DecidableEq, Repr

namespace Painter

/-- Nothing was ever painted. -/
def empty : Painter := ⟨.empty, none⟩

/-- Why painting can end. -/
inductive Failure where
  /-- There is no handle for a category. -/
  | noHandle (category : Category)
deriving DecidableEq, Repr

namespace InPlace

/-- Something done with an overlay and its terminal. -/
abbrev Action : Type → Type := ClassHighlight.InPlace Painter Failure

/-! ## Calls to the terminal -/

/-- Has a decoration created. -/
def createDecoration (category : Category) (style : Style) : Action Nat := do
  let (terminal, handle) := (← get).terminal.create category style
  modify fun p => { p with terminal }
  return handle

/-- Has the spans of a decoration replaced. -/
def setSpans (handle : Nat) (spans : List Span) : Action Unit :=
  modify fun p => { p with terminal := p.terminal.set handle spans }

/-- Has a decoration removed. -/
def dispose (handle : Nat) : Action Unit :=
  modify fun p => { p with terminal := p.terminal.dispose handle }

/-! ## The overlay -/

/-- Has one decoration created for each category. -/
def createSet (palette : Palette) : Action HandleSet := do
  let handles ← Category.all.mapM fun c => createDecoration c (Style.ofCategory palette c)
  return ⟨palette, handles⟩

/-- Gives up the live decorations and has them removed; tells whether there were any. -/
def clear : Action Bool := do
  match (← get).set? with
  | none => return false
  | some set =>
    modify fun p => { p with set? := none }
    set.handles.forM dispose
    return true

/-- The live decorations, which are created if there are none. -/
def getOrCreate (palette : Palette) : Action HandleSet := do
  match (← get).set? with
  | some set => return set
  | none =>
    let set ← createSet palette
    modify fun p => { p with set? := some set }
    return set

/-- Makes sure that the live decorations are those of a palette. -/
def prepare (palette : Palette) : Action HandleSet := do
  if (← get).set?.any fun set => set.palette ≠ palette then
    let _ ← clear
  getOrCreate palette

/-- Has the spans of a category painted. -/
def paint (set : HandleSet) (h : Highlights) (c : Category) : Action Unit :=
  match set.handles[c.index]? with
  | some handle => setSpans handle (h.get c)
  | none => throw (.noHandle c)

/-- Paints highlights in the colors of a palette. -/
def apply (palette : Palette) (h : Highlights) : Action Unit := do
  let set ← prepare palette
  Category.all.forM (paint set h)

/-- Performs an operation. -/
def perform : Overlay.Operation → Action Overlay.Outcome
  | .apply palette h => do
    apply palette h
    return .done
  | .clear => return .cleared (← clear)

/-- Performs operations one after the other. -/
def run (ops : List Overlay.Operation) : Action Unit :=
  ops.forM fun op => do
    let _ ← perform op

end InPlace

end Painter

end ClassHighlight
