import ClassHighlight.Mode
import ClassHighlight.Source.Candidate

/-!
# Selection

Which candidates are highlighted. Around a cursor, an attribute's value wins over a call, and of
nested calls the outermost one counts, with all its literals.
-/

namespace ClassHighlight

namespace Source

/-- The candidates around an offset. -/
def candidatesAt (source : Source) (offset : Nat) : List Candidate :=
  match source.attributes.find? fun c => c.encloses offset with
  | some c => [c]
  | none =>
    match (Call.outermost source.calls).find? fun call => call.encloses offset with
    | some call => source.literals call
    | none => []

/-- The candidates that a mode selects; without a cursor there is nothing around it. -/
def selected (source : Source) (mode : Mode) (cursor? : Option Nat) : List Candidate :=
  match mode, cursor? with
  | .full, _ => source.candidates
  | .cursor, some offset => source.candidatesAt offset
  | .cursor, none => []

end Source

end ClassHighlight
