import ClassHighlight.Category
import ClassHighlight.ClassString.Token

/-!
# Parts of a token

A token such as `sm:hover:!bg-[#123]` is a chain of variants, each with its colon, an optional
mark that makes it important, and a utility that may hold arbitrary values in brackets. Colons and
brackets that are escaped, and colons within brackets, are ordinary characters.
-/

namespace ClassHighlight

/-- A token with the places of its parts, all relative to its start. -/
structure Classified where
  /-- The token. -/
  token : Token
  /-- The length of the chain of variants through its last colon, or zero. -/
  variantLength : Nat
  /-- Whether an exclamation mark follows the chain. -/
  isImportant : Bool
  /-- The outermost brackets that are closed. -/
  arbitrary : List Span
deriving DecidableEq, Repr

namespace Classified

/-- The outermost closed brackets in the part of a token that starts at `offset`; `opened` is the
offset of the outermost open bracket, if one is open. -/
def brackets (n : Nesting) (opened offset : Nat) : Text → List Span
  | [] => []
  | c :: rest =>
    let next := n.step c
    let stop := offset + c.utf8Size
    let others := brackets next (if n.isOutside then offset else opened) stop rest
    if !n.isOutside && next.isOutside then ⟨opened, stop⟩ :: others else others

/-- The offset after the last colon outside brackets that is not escaped, in the part of a token
that starts at `offset`, or `last` if there is none. -/
def afterLastColon (n : Nesting) (last offset : Nat) : Text → Nat
  | [] => last
  | c :: rest =>
    let stop := offset + c.utf8Size
    afterLastColon (n.step c) (if c == ':' && n.isOutside && !n.escaped then stop else last) stop
      rest

/-- Finds the parts of a token. -/
def ofToken (t : Token) : Classified :=
  let variantLength := afterLastColon .start 0 0 t.text
  { token := t
    variantLength
    isImportant := (Text.splitAtByte? variantLength t.text).any fun (_, after) =>
      after.head? == some '!'
    arbitrary := brackets .start 0 0 t.text }

/-- The chain of variants, if there is one. -/
def variantSpan? (c : Classified) : Option Span :=
  if c.variantLength = 0 then none else some ⟨0, c.variantLength⟩

/-- The important mark, if there is one. -/
def importantSpan? (c : Classified) : Option Span :=
  if c.isImportant then some ⟨c.variantLength, c.variantLength + 1⟩ else none

/-- The whole token. -/
def utilitySpan (c : Classified) : Span :=
  ⟨0, Text.byteLength c.token.text⟩

/-- The spans of each category, relative to the start of the token. -/
def spans (c : Classified) : ByCategory (List Span) where
  variant := c.variantSpan?.toList
  important := c.importantSpan?.toList
  arbitrary := c.arbitrary
  utility := [c.utilitySpan]

end Classified

end ClassHighlight
