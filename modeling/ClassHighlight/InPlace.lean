/-!
# Changes in place

A computation that changes a state step by step and may fail on its way. What it has changed before
it fails stays changed, so that a failure leaves the state as it was is a property of a
computation and not of its form.
-/

namespace ClassHighlight

/-- A computation that changes a state and gives a value, or fails with the state it has left. -/
abbrev InPlace (σ ε : Type) : Type → Type := ExceptT ε (StateM σ)

namespace InPlace

variable {σ ε α β : Type}

/-- What a computation gives from a state, and the state that it leaves. -/
def on (x : InPlace σ ε α) (s : σ) : Except ε α × σ := (x.run.run s).run

/-- A computation goes on from the state that its first part leaves, unless that part fails. -/
theorem on_bind (x : InPlace σ ε α) (f : α → InPlace σ ε β) (s : σ) :
    (x >>= f).on s =
      match x.on s with
      | (.ok a, left) => (f a).on left
      | (.error e, left) => (.error e, left) := by
  cases h : x.on s with
  | mk result left =>
    unfold on at h ⊢
    cases result <;> simp_all [ExceptT.run_bind, StateT.run_bind]

@[simp] theorem on_pure (a : α) (s : σ) : (pure a : InPlace σ ε α).on s = (.ok a, s) := rfl

@[simp] theorem on_throw (e : ε) (s : σ) : (throw e : InPlace σ ε α).on s = (.error e, s) := rfl

@[simp] theorem on_get (s : σ) : (get : InPlace σ ε σ).on s = (.ok s, s) := rfl

@[simp] theorem on_modify (f : σ → σ) (s : σ) :
    (modify f : InPlace σ ε PUnit).on s = (.ok (), f s) := rfl

/-- A choice is made before anything is changed. -/
theorem on_ite (c : Prop) [Decidable c] (x y : InPlace σ ε α) (s : σ) :
    (if c then x else y).on s = if c then x.on s else y.on s := by
  split <;> rfl

/-- A first part that succeeds hands over its value and its state. -/
theorem on_bind_of_ok {x : InPlace σ ε α} {s left : σ} {a : α} (h : x.on s = (.ok a, left))
    (f : α → InPlace σ ε β) : (x >>= f).on s = (f a).on left := by
  rw [on_bind, h]

/-- A first part that fails ends the computation. -/
theorem on_bind_of_error {x : InPlace σ ε α} {s left : σ} {e : ε} (h : x.on s = (.error e, left))
    (f : α → InPlace σ ε β) : (x >>= f).on s = (.error e, left) := by
  rw [on_bind, h]

/-! ## Other errors -/

variable {ε' : Type}

/-- A computation that fails with other errors. -/
def mapError (f : ε → ε') (x : InPlace σ ε α) : InPlace σ ε' α := x.adapt f

theorem on_mapError (f : ε → ε') (x : InPlace σ ε α) (s : σ) :
    (x.mapError f).on s = ((x.on s).1.mapError f, (x.on s).2) := by
  cases h : x.on s with
  | mk result left =>
    unfold mapError on ExceptT.adapt at *
    simp_all [ExceptT.run, ExceptT.mk]

/-- What succeeds does so whatever the errors are. -/
theorem on_mapError_of_ok {x : InPlace σ ε α} {s left : σ} {a : α} (h : x.on s = (.ok a, left))
    (f : ε → ε') : (x.mapError f).on s = (.ok a, left) := by
  rw [on_mapError, h]
  rfl

end InPlace

end ClassHighlight
