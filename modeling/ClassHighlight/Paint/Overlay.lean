import ClassHighlight.Highlight
import ClassHighlight.Paint.Call

/-!
# Overlays

An overlay keeps at most one set of decorations alive, one for each category, all made for one
palette. It tells what a host has to be asked to show highlights, or to show nothing: a set is
created when it is first needed, replaced when the palette changes, and disposed once.
-/

namespace ClassHighlight

/-- A set of live decorations. -/
structure LiveSet where
  /-- The palette that they were made for. -/
  palette : Palette
  /-- Their handles. -/
  handles : ByCategory Nat
deriving DecidableEq, Repr

/-- The decorations of a host. -/
structure Overlay where
  /-- The decorations that are alive. -/
  live? : Option LiveSet
  /-- The number of decorations ever created. -/
  created : Nat
deriving DecidableEq, Repr

namespace Overlay

/-- No decoration was ever created. -/
def empty : Overlay := ⟨none, 0⟩

/-- Whether something may be painted. -/
def isLive (o : Overlay) : Bool := o.live?.isSome

/-- Disposes the live decorations. -/
def clear (o : Overlay) : Overlay × List PaintCall :=
  match o.live? with
  | some set => ({ o with live? := none }, set.handles.toList.map .dispose)
  | none => (o, [])

/-- Creates a set of decorations for a palette, when none is alive. -/
def create (o : Overlay) (palette : Palette) : Overlay × LiveSet × List PaintCall :=
  let handles := ByCategory.ofFn fun c => o.created + c.index
  let set : LiveSet := ⟨palette, handles⟩
  (⟨some set, o.created + Category.all.length⟩, set,
    Category.all.map fun c => .create (handles.get c) c (Style.ofCategory palette c))

/-- Makes sure that the live decorations are those of a palette. -/
def prepare (o : Overlay) (palette : Palette) : Overlay × LiveSet × List PaintCall :=
  match o.live? with
  | some set =>
    if set.palette = palette then (o, set, [])
    else
      let (cleared, disposals) := o.clear
      let (made, set, creations) := cleared.create palette
      (made, set, disposals ++ creations)
  | none => o.create palette

/-- Shows highlights in the colors of a palette, in place of all that was shown. -/
def apply (o : Overlay) (palette : Palette) (h : Highlights) : Overlay × List PaintCall :=
  let (prepared, set, calls) := o.prepare palette
  (prepared, calls ++ Category.all.map fun c => .set (set.handles.get c) (h.get c))

/-! ## Operations -/

/-- Something to be done with an overlay. -/
inductive Operation where
  /-- Shows highlights in the colors of a palette. -/
  | apply (palette : Palette) (h : Highlights)
  /-- Shows nothing. -/
  | clear
deriving DecidableEq, Repr

/-- What an operation gives. -/
inductive Outcome where
  /-- Nothing but its calls. -/
  | done
  /-- Whether there was anything to be cleared. -/
  | cleared (wasLive : Bool)
deriving DecidableEq, Repr

/-- Performs an operation. -/
def perform (o : Overlay) : Operation → Overlay × List PaintCall × Outcome
  | .apply palette h =>
    let (next, calls) := o.apply palette h
    (next, calls, .done)
  | .clear =>
    let (next, calls) := o.clear
    (next, calls, .cleared o.isLive)

/-- Performs operations one after the other and collects their calls. -/
def run (o : Overlay) : List Operation → Overlay × List PaintCall
  | [] => (o, [])
  | op :: rest =>
    let (next, calls, _) := o.perform op
    let (last, later) := run next rest
    (last, calls ++ later)

end Overlay

end ClassHighlight
