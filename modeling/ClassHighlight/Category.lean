import ClassHighlight.Text.Basic

/-!
# Categories

The four things that are told apart in a class token, and records that hold one value for each.
-/

namespace ClassHighlight

/-- What a painted span stands for. -/
inductive Category where
  /-- The chain of variants before a utility, with its colons. -/
  | variant
  /-- The mark that makes a utility important. -/
  | important
  /-- A value in square brackets. -/
  | arbitrary
  /-- The whole token. -/
  | utility
deriving DecidableEq, Repr, Inhabited

namespace Category

/-- All categories, in the order in which they are painted and listed. -/
def all : List Category := [.variant, .important, .arbitrary, .utility]

/-- The name of a category. -/
def name : Category → Text
  | .variant => "variant".toList
  | .important => "important".toList
  | .arbitrary => "arbitrary".toList
  | .utility => "utility".toList

/-- The place of a category in `Category.all`. -/
def index : Category → Nat
  | .variant => 0
  | .important => 1
  | .arbitrary => 2
  | .utility => 3

/-- The category with a given name. -/
def ofName? (t : Text) : Option Category :=
  all.find? fun c => c.name == t

theorem mem_all (c : Category) : c ∈ all := by
  cases c <;> decide

end Category

/-- One value for each category. -/
structure ByCategory (α : Type) where
  /-- The value for variants. -/
  variant : α
  /-- The value for important marks. -/
  important : α
  /-- The value for arbitrary values. -/
  arbitrary : α
  /-- The value for utilities. -/
  utility : α
deriving DecidableEq, Repr, Inhabited

namespace ByCategory

variable {α β : Type}

/-- The record whose value for each category is given by a function. -/
def ofFn (f : Category → α) : ByCategory α :=
  ⟨f .variant, f .important, f .arbitrary, f .utility⟩

/-- The value for a category. -/
def get (r : ByCategory α) : Category → α
  | .variant => r.variant
  | .important => r.important
  | .arbitrary => r.arbitrary
  | .utility => r.utility

/-- The record with another value for a category. -/
def set (r : ByCategory α) (c : Category) (a : α) : ByCategory α :=
  match c with
  | .variant => { r with variant := a }
  | .important => { r with important := a }
  | .arbitrary => { r with arbitrary := a }
  | .utility => { r with utility := a }

/-- Applies a function to all four values. -/
def map (f : α → β) (r : ByCategory α) : ByCategory β :=
  ofFn fun c => f (r.get c)

/-- The four values in the order of `Category.all`. -/
def toList (r : ByCategory α) : List α :=
  Category.all.map r.get

@[simp] theorem get_ofFn (f : Category → α) (c : Category) : (ofFn f).get c = f c := by
  cases c <;> rfl

/-- The value that was put in for a category is found there, and nowhere else. -/
theorem get_set (r : ByCategory α) (c : Category) (a : α) (c' : Category) :
    (r.set c a).get c' = if c' = c then a else r.get c' := by
  cases c <;> cases c' <;> rfl

@[simp] theorem get_map (f : α → β) (r : ByCategory α) (c : Category) :
    (r.map f).get c = f (r.get c) := by
  simp [map]

/-- A record is known by its values. -/
theorem ext_get {r s : ByCategory α} (h : ∀ c, r.get c = s.get c) : r = s := by
  obtain ⟨a, b, c, d⟩ := r
  obtain ⟨a', b', c', d'⟩ := s
  have h1 := h .variant
  have h2 := h .important
  have h3 := h .arbitrary
  have h4 := h .utility
  simp only [get] at h1 h2 h3 h4
  rw [h1, h2, h3, h4]

end ByCategory

end ClassHighlight
