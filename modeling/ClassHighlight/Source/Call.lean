import ClassHighlight.Source.Basic

/-!
# Calls of merge functions

A merge function joins class lists. A call is its name, not as the end of a longer identifier,
blanks, and an argument list in balanced parentheses; parentheses in comments and in quoted
regions do not count. A name inside a string literal counts as well: the literal may hold code.
-/

namespace ClassHighlight

/-- The functions whose arguments hold class lists. -/
inductive MergeFunction where
  /-- The function `cn`. -/
  | cn
  /-- The function `clsx`. -/
  | clsx
  /-- The function `classnames`. -/
  | classnames
deriving DecidableEq, Repr

namespace MergeFunction

/-- All merge functions. -/
def all : List MergeFunction := [.cn, .clsx, .classnames]

/-- The name of a merge function in a document. -/
def name : MergeFunction → Text
  | .cn => "cn".toList
  | .clsx => "clsx".toList
  | .classnames => "classnames".toList

end MergeFunction

/-- The offset of the parenthesis that closes the one opened at the first mark, when `open?` is
the quoted region and `depth` the number of open parentheses before it. Comments are passed over,
unless they start inside a quoted region. -/
def closingParen? (comments : CommentMap) : (open? : QuoteState) → (depth : Nat) → List Mark →
    Option Nat
  | _, _, [] => none
  | open?, depth, m :: rest =>
    if open?.isNone && comments.contains m.offset then
      closingParen? comments open? depth rest
    else
      match open?.step m.escaped m.byte with
      | (none, false) =>
        if m.byte == '('.toUInt8 then closingParen? comments none (depth + 1) rest
        else if m.byte == ')'.toUInt8 then
          if depth ≤ 1 then some m.offset else closingParen? comments none (depth - 1) rest
        else closingParen? comments none depth rest
      | (next?, _) => closingParen? comments next? depth rest

/-- A call of a merge function with balanced parentheses. -/
structure Call where
  /-- The function called. -/
  function : MergeFunction
  /-- The text between the parentheses. -/
  args : Text
  /-- The offset after the opening parenthesis. -/
  argsStart : Nat
  /-- The offset of the function's name. -/
  start : Nat
  /-- The offset after the closing parenthesis. -/
  stop : Nat
deriving DecidableEq, Repr

namespace Call

/-- Whether an offset is within the call, both ends included. -/
def encloses (call : Call) (offset : Nat) : Bool :=
  call.start ≤ offset && offset ≤ call.stop

/-- The calls that do not start within an earlier one that was kept, which ended at `covered`. -/
def outermostFrom (covered : Nat) : List Call → List Call
  | [] => []
  | call :: rest =>
    if call.start < covered then outermostFrom covered rest
    else call :: outermostFrom call.stop rest

/-- The calls that do not start within an earlier outermost call; the calls are in order. -/
def outermost (calls : List Call) : List Call :=
  outermostFrom 0 calls

end Call

namespace Source

/-- Whether a byte can be part of an identifier; so can every byte of a non-ASCII character. -/
def isIdentifierByte (b : UInt8) : Bool :=
  isAlphanumeric b || b == '_'.toUInt8 || b == '$'.toUInt8 || 0x80 ≤ b

/-- The offset of the parenthesis that closes the one at a given offset. -/
def closingParenOf? (source : Source) (offset : Nat) : Option Nat :=
  closingParen? source.comments none 0 (source.marks.drop offset)

/-- The call of a given function whose name starts at the first mark. -/
def callOf? (source : Source) (function : MergeFunction) : List Mark → Option Call
  | [] => none
  | m :: rest =>
    let name := Text.bytes function.name
    if Mark.startsWith name (m :: rest) && !m.previous.any isIdentifierByte &&
        !source.comments.contains m.offset then
      match Mark.dropBlanks ((m :: rest).drop name.length) with
      | [] => none
      | opening :: args =>
        if opening.byte == '('.toUInt8 then
          (closingParen? source.comments none 0 (opening :: args)).map fun close =>
            { function
              args := source.slice ⟨opening.offset + 1, close⟩
              argsStart := opening.offset + 1
              start := m.offset
              stop := close + 1 }
        else
          none
    else
      none

/-- The calls whose names start among the given marks. -/
def callsFrom (source : Source) : List Mark → List Call
  | [] => []
  | m :: rest =>
    (MergeFunction.all.filterMap fun f => source.callOf? f (m :: rest)) ++ callsFrom source rest

/-- The calls of merge functions, in the order of their names. -/
def calls (source : Source) : List Call :=
  callsFrom source source.marks

end Source

end ClassHighlight
