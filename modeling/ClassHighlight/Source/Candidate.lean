import ClassHighlight.Source.Call

/-!
# Candidates

A candidate is a part of a document that should hold a class list: the value of a class attribute,
or a literal among the arguments of a merge function.
-/

namespace ClassHighlight

/-- Where a candidate was found. -/
inductive CandidateKind where
  /-- The value of a class attribute. -/
  | attribute
  /-- A literal among the arguments of a call. -/
  | argument
deriving DecidableEq, Repr

/-- A part of a document that should hold a class list. -/
structure Candidate where
  /-- The text between the delimiters. -/
  text : Text
  /-- The offset of that text. -/
  base : Nat
  /-- Where it was found. -/
  kind : CandidateKind
  /-- Its delimiter. -/
  quote : Quote
deriving DecidableEq, Repr

namespace Candidate

/-- Whether the text may hold interpolations. -/
def isTemplate (c : Candidate) : Bool := c.quote == .template

/-- The extent of the text in the document. -/
def span (c : Candidate) : Span := ⟨c.base, c.base + Text.byteLength c.text⟩

/-- Whether an offset is within the text, both ends included. -/
def encloses (c : Candidate) (offset : Nat) : Bool := c.span.encloses offset

end Candidate

namespace Source

/-! ## Attributes -/

/-- The attributes whose values are class lists. -/
def classAttributes : List Text := ["className".toList, "class".toList]

/-- Whether a byte can be part of an attribute's name. -/
def isAttributeByte (b : UInt8) : Bool :=
  isAlphanumeric b || b == '_'.toUInt8 || b == '-'.toUInt8

/-- The marks after a given byte, if the first mark holds that byte. -/
def expect? (b : UInt8) : List Mark → Option (List Mark)
  | [] => none
  | m :: rest => if m.byte == b then some rest else none

/-- The marks of an attribute's value and of all that follows it, from the first mark after the
attribute's name: an equals sign and a quotation mark, with blanks around the sign. -/
def attributeValue? (ms : List Mark) : Option (List Mark) :=
  (expect? '='.toUInt8 (Mark.dropBlanks ms)).bind fun value =>
    expect? Quote.double.byte (Mark.dropBlanks value)

/-- The value of a given attribute whose name starts at the first mark. The value ends at the next
quotation mark; nothing is escaped in it. -/
def attributeOf? (source : Source) (name : Text) : List Mark → Option Candidate
  | [] => none
  | m :: rest =>
    if Mark.startsWith (Text.bytes name) (m :: rest) && !m.previous.any isAttributeByte &&
        !source.comments.contains m.offset then
      (attributeValue? ((m :: rest).drop (Text.bytes name).length)).bind fun value =>
        match value.head?, value.find? fun m => m.byte == Quote.double.byte with
        | some first, some last =>
          if source.comments.contains first.offset then none
          else some ⟨source.slice ⟨first.offset, last.offset⟩, first.offset, .attribute, .double⟩
        | _, _ => none
    else
      none

/-- The class attributes whose names start among the given marks. -/
def attributesFrom (source : Source) : List Mark → List Candidate
  | [] => []
  | m :: rest =>
    (classAttributes.filterMap fun name => source.attributeOf? name (m :: rest)) ++
      attributesFrom source rest

/-- The values of class attributes, in order. -/
def attributes (source : Source) : List Candidate :=
  attributesFrom source source.marks

/-! ## Literals -/

/-- The bodies of the literals among some marks, each with its delimiter, when `open?` is the
literal that is open before them and the offset of its body. Comments between literals are passed
over; a literal whose body starts in a comment is left out, and so is one that is never closed. -/
def literalsFrom (comments : CommentMap) : (open? : Option (Quote × Nat)) → List Mark →
    List (Quote × Span)
  | _, [] => []
  | none, m :: rest =>
    if comments.contains m.offset then literalsFrom comments none rest
    else literalsFrom comments (m.opens?.map fun q => (q, m.offset + 1)) rest
  | some (q, start), m :: rest =>
    if m.closes q then
      let others := literalsFrom comments none rest
      if comments.contains start then others else (q, ⟨start, m.offset⟩) :: others
    else
      literalsFrom comments (some (q, start)) rest

/-- The literals among the arguments of a call, in order. -/
def literals (source : Source) (call : Call) : List Candidate :=
  let args := (source.marks.drop call.argsStart).take (call.stop - 1 - call.argsStart)
  (literalsFrom source.comments none args).map fun (quote, span) =>
    ⟨source.slice span, span.start, .argument, quote⟩

/-! ## All candidates -/

/-- The literals of all outermost calls; a nested call is covered by the call around it. -/
def arguments (source : Source) : List Candidate :=
  (Call.outermost source.calls).flatMap source.literals

/-- All candidates of a document, in order. -/
def candidates (source : Source) : List Candidate :=
  (source.attributes ++ source.arguments).mergeSort fun a b => a.base ≤ b.base

end Source

end ClassHighlight
