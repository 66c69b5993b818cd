import ClassHighlight.Source.Quote
import ClassHighlight.Text.Blank

/-!
# Template literals

The body of a template literal alternates between fixed text and interpolations. An interpolation
starts with a dollar sign that is not escaped and an opening brace, and ends at the first closing
brace after that; braces do not nest. One that is never closed takes the rest of the body.
-/

namespace ClassHighlight

/-- A part of the body of a template literal. -/
inductive TemplatePiece where
  /-- Text that stands for itself, possibly none. -/
  | fixed (text : Text)
  /-- An interpolation, its delimiters included. -/
  | interpolation (text : Text)
deriving DecidableEq, Repr

namespace TemplatePiece

/-- The text of a piece. -/
def text : TemplatePiece → Text
  | .fixed t => t
  | .interpolation t => t

/-- What an interpolation starts with. -/
def opener : Text := ['$', '{']

/-- Whether a text starts as an interpolation does. -/
def startsInterpolation : Text → Bool
  | '$' :: '{' :: _ => true
  | _ => false

/-- The fixed text up to the next interpolation, and what is left from there. -/
def splitFixed (escaped : Bool) : Text → Text × Text
  | [] => ([], [])
  | c :: rest =>
    if !escaped && startsInterpolation (c :: rest) then ([], c :: rest)
    else
      (c :: (splitFixed (c == '\\' && !escaped) rest).1,
        (splitFixed (c == '\\' && !escaped) rest).2)

/-- An interpolation at the start of a text and what follows it, or `none` if it never ends. -/
def splitInterpolation? : Text → Option (Text × Text)
  | [] => none
  | '}' :: rest => some (['}'], rest)
  | c :: rest => (splitInterpolation? rest).map fun (body, after) => (c :: body, after)

theorem splitFixed_append (escaped : Bool) (t : Text) :
    (splitFixed escaped t).1 ++ (splitFixed escaped t).2 = t := by
  fun_induction splitFixed escaped t <;> simp_all

theorem append_of_splitInterpolation? {t body after : Text}
    (h : splitInterpolation? t = some (body, after)) : t = body ++ after ∧ body ≠ [] := by
  fun_induction splitInterpolation? t generalizing body after with
  | case1 => simp at h
  | case2 rest =>
    obtain ⟨rfl, rfl⟩ : ['}'] = body ∧ rest = after := by simpa using h
    simp
  | case3 c rest hc ih =>
    obtain ⟨⟨body', after'⟩, hs, heq⟩ := Option.map_eq_some_iff.1 h
    obtain ⟨rfl, rfl⟩ : c :: body' = body ∧ after' = after := by simpa using heq
    simp [← (ih hs).1]

/-- The pieces of the body of a template literal: fixed texts, with an interpolation between each
two of them. -/
def split (t : Text) : List TemplatePiece :=
  match _hfixed : splitFixed false t with
  | (fixedText, []) => [.fixed fixedText]
  | (fixedText, c :: rest) =>
    match _hbody : splitInterpolation? (c :: rest) with
    | some (body, after) => .fixed fixedText :: .interpolation body :: split after
    | none => [.fixed fixedText, .interpolation (c :: rest), .fixed []]
termination_by t.length
decreasing_by
  obtain ⟨hsplit, hne⟩ := append_of_splitInterpolation? _hbody
  have htotal := congrArg List.length (splitFixed_append false t)
  have hrest := congrArg List.length hsplit
  have hpos := List.length_pos_iff.2 hne
  simp only [_hfixed, List.length_append] at htotal hrest
  omega

end TemplatePiece

/-- Fixed text of a template literal that holds more than blanks. -/
structure StaticRun where
  /-- The text. -/
  text : Text
  /-- Its offset in the body of the literal. -/
  offset : Nat
deriving DecidableEq, Repr

namespace StaticRun

/-- The static runs among pieces of which the first starts at `offset`. -/
def ofPieces (offset : Nat) : List TemplatePiece → List StaticRun
  | [] => []
  | piece :: rest =>
    let others := ofPieces (offset + Text.byteLength piece.text) rest
    match piece with
    | .fixed t => if t.all isBlank then others else ⟨t, offset⟩ :: others
    | .interpolation _ => others

/-- The static runs of the body of a template literal. -/
def all (t : Text) : List StaticRun :=
  ofPieces 0 (TemplatePiece.split t)

end StaticRun

end ClassHighlight
