import ClassHighlight.Config.Basic

/-!
# Events

What observers of a session are told.
-/

namespace ClassHighlight

/-- A document of a session; documents are numbered in the order in which they were opened. -/
abbrev DocumentId := Nat

/-- Something that happened in a session. -/
inductive Event where
  /-- A document was opened. -/
  | opened (document : DocumentId)
  /-- A document became the active one. -/
  | activated (document : DocumentId)
  /-- A document was closed. -/
  | closed (document : DocumentId)
  /-- The highlights of a document are painted; there are so many of each category. -/
  | applied (document : DocumentId) (counts : ByCategory Nat)
  /-- Nothing is painted any more. -/
  | cleared
  /-- The status changed. -/
  | status (status : Status)
deriving DecidableEq, Repr

end ClassHighlight
