import ClassHighlight.ClassString.Nesting
import ClassHighlight.Span
import ClassHighlight.Text.Blank

/-!
# Tokens of a class list

A class list is split at the blanks outside brackets. A bracket that is never closed keeps the
rest of the list in its token.
-/

namespace ClassHighlight

/-- One entry of a class list. -/
structure Token where
  /-- Its text. -/
  text : Text
  /-- The offset of the text in the class list. -/
  start : Nat
deriving DecidableEq, Repr

namespace Token

/-- The extent of a token in the class list. -/
def span (t : Token) : Span := ⟨t.start, t.start + Text.byteLength t.text⟩

/-- The characters up to the next blank outside brackets, and what is left from there. -/
def splitWord (n : Nesting) : Text → Text × Text
  | [] => ([], [])
  | c :: rest =>
    if n.isOutside && isBlank c then ([], c :: rest)
    else ((c :: (splitWord (n.step c) rest).1), (splitWord (n.step c) rest).2)

theorem splitWord_append (n : Nesting) (t : Text) :
    (splitWord n t).1 ++ (splitWord n t).2 = t := by
  fun_induction splitWord n t <;> simp_all

theorem length_splitWord_le (n : Nesting) (t : Text) :
    (splitWord n t).2.length ≤ t.length := by
  have h := congrArg List.length (splitWord_append n t)
  rw [List.length_append] at h
  omega

/-- The tokens of the part of a class list that starts at `offset`. -/
def splitFrom (offset : Nat) : Text → List Token
  | [] => []
  | c :: rest =>
    if isBlank c then
      splitFrom (offset + c.utf8Size) rest
    else
      let word := c :: (splitWord (Nesting.start.step c) rest).1
      ⟨word, offset⟩ ::
        splitFrom (offset + Text.byteLength word) (splitWord (Nesting.start.step c) rest).2
termination_by t => t.length
decreasing_by
  · simp
  · have := length_splitWord_le (Nesting.start.step c) rest
    simp only [List.length_cons]
    omega

/-- The tokens of a class list. -/
def split (t : Text) : List Token :=
  splitFrom 0 t

end Token

end ClassHighlight
