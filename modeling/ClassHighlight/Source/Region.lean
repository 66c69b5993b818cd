import ClassHighlight.Source.Mark
import ClassHighlight.Span

/-!
# Comments and quoted regions

One pass from left to right divides a document into code, quoted regions and comments, so that a
comment opener inside a string opens nothing, nor does a quote inside a comment. A comment is one
of three forms:

* a line comment, from `//` that does not follow a colon, or from a `#` that only spaces and tabs
  precede on its line, up to the next line feed;
* a block comment, from a slash and a star to the next star and slash;
* a markup comment, from `<!--` to the next `-->`.

A region that is never closed runs to the end of the document.
-/

namespace ClassHighlight

/-- How a comment is closed. -/
inductive CommentForm where
  /-- Up to the next line feed, which is not part of the comment. -/
  | line
  /-- Through the next star and slash. -/
  | block
  /-- Through the next `-->`. -/
  | markup
deriving DecidableEq, Repr, Inhabited

namespace CommentForm

/-- The form and the opener's length of a comment that starts at the first mark of code. -/
def opener? : List Mark → Option (CommentForm × Nat)
  | [] => none
  | m :: rest =>
    if Mark.startsWith (Text.bytes "//".toList) (m :: rest) then
      if m.previous == some ':'.toUInt8 then none else some (.line, 2)
    else if Mark.startsWith (Text.bytes ['/', '*']) (m :: rest) then some (.block, 2)
    else if Mark.startsWith (Text.bytes "<!--".toList) (m :: rest) then some (.markup, 4)
    else if m.byte == '#'.toUInt8 && m.leadsLine then some (.line, 1)
    else none

end CommentForm

namespace Region

/-- The number of marks up to and through the first occurrence of a closer, or of all of them. -/
def lengthThrough (closer : List UInt8) : List Mark → Nat
  | [] => 0
  | m :: rest =>
    if Mark.startsWith closer (m :: rest) then closer.length
    else lengthThrough closer rest + 1

/-- The length of a comment's body, its closer included, from the first mark after the opener. -/
def bodyLength : CommentForm → List Mark → Nat
  | .line, ms => (ms.takeWhile fun m => m.byte != '\n'.toUInt8).length
  | .block, ms => lengthThrough (Text.bytes ['*', '/']) ms
  | .markup, ms => lengthThrough (Text.bytes "-->".toList) ms

/-- The number of marks through the first one that closes a quote, if there is one. -/
def quotedLength? (q : Quote) : List Mark → Option Nat
  | [] => none
  | m :: rest => if m.closes q then some 1 else (quotedLength? q rest).map (· + 1)

end Region

/-- A part of a document that is not code. -/
inductive Region where
  /-- A comment, its opener and its closer included. -/
  | comment (span : Span)
  /-- A quoted region, its delimiters included; `closed` tells whether the last one is there. -/
  | quoted (quote : Quote) (span : Span) (closed : Bool)
deriving DecidableEq, Repr

namespace Region

/-- The extent of a region. -/
def span : Region → Span
  | .comment s => s
  | .quoted _ s _ => s

/-- The extent of a comment. -/
def commentSpan? : Region → Option Span
  | .comment s => some s
  | .quoted .. => none

/-- The region that starts at the first mark of code, if one does. -/
def starting? : List Mark → Option Region
  | [] => none
  | m :: rest =>
    match m.opens? with
    | some q =>
      match quotedLength? q rest with
      | some n => some (.quoted q ⟨m.offset, m.offset + 1 + n⟩ true)
      | none => some (.quoted q ⟨m.offset, m.offset + 1 + rest.length⟩ false)
    | none =>
      (CommentForm.opener? (m :: rest)).map fun (form, n) =>
        .comment ⟨m.offset, m.offset + n + bodyLength form ((m :: rest).drop n)⟩

/-- The regions that start after the first `skip` marks. -/
def scan : (skip : Nat) → List Mark → List Region
  | _, [] => []
  | skip + 1, _ :: rest => scan skip rest
  | 0, m :: rest =>
    match starting? (m :: rest) with
    | some r => r :: scan (r.span.length - 1) rest
    | none => scan 0 rest

/-- The comments and quoted regions of a document, in order. -/
def all (ms : List Mark) : List Region :=
  scan 0 ms

end Region

end ClassHighlight
