import ClassHighlight.Toml.Reader

/-!
# Reading TOML documents

A document is read line by line. Entries go into the table of the last header; when the next
header comes, or the document ends, that table takes its place among the others.
-/

namespace ClassHighlight

namespace Toml

/-- A document that has been read in part. -/
structure Draft where
  /-- The tables whose lines were all read. -/
  root : Entries
  /-- The path in the last header; there is none before the first header. -/
  path : List Text
  /-- Whether the last header stood in double brackets. -/
  isRow : Bool
  /-- The entries of the table of the last header. -/
  entries : Entries

namespace Draft

/-- Nothing has been read. -/
def empty : Draft := ⟨[], [], false, []⟩

/-- The document with the last table in its place. -/
def finish (d : Draft) : Option Entries :=
  match d.path.getLast? with
  | none => some d.entries
  | some key =>
    descend false (fun _ entries =>
      match entries.lookup key with
      | none =>
        some (entries ++ [(key, if d.isRow then .tables [d.entries] else .table .header d.entries)])
      | some (.tables rows) =>
        if d.isRow then
          some (entries.map fun entry =>
            if entry.1 = key then (key, .tables (rows ++ [d.entries])) else entry)
        else none
      | some _ => none) .header d.path.dropLast d.root

/-- The entry at a path, if the tables on the way can be passed by a header; `some none` if they
can be passed but there is no such entry. -/
def find? : (path : List Text) → Entries → Option (Option Value)
  | [], _ => none
  | [key], entries => some (entries.lookup key)
  | key :: path, entries =>
    match entries.lookup key with
    | none => some none
    | some (.table origin inner) => if origin = .braces then none else find? path inner
    | some (.tables rows) =>
      match rows.getLast? with
      | some row => find? path row
      | none => none
    | some _ => none

/-- Takes the entry at a path away. -/
def without (path : List Text) (root : Entries) : Option Entries :=
  path.getLast?.bind fun key =>
    descend false (fun _ entries => some (entries.filter fun entry => entry.1 != key))
      .header path.dropLast root

/-- Starts the table of a header in single brackets. It may not have been defined before, except
by the header of a table within it. -/
def startTable (d : Draft) (path : List Text) : Option Draft := do
  let root ← d.finish
  match ← find? path root with
  | none => some ⟨root, path, false, []⟩
  | some (.table .implied entries) => some ⟨← without path root, path, false, entries⟩
  | some _ => none

/-- Starts a table of a header in double brackets. -/
def startRow (d : Draft) (path : List Text) : Option Draft := do
  let root ← d.finish
  match ← find? path root with
  | none => some ⟨root, path, true, []⟩
  | some (.tables _) => some ⟨root, path, true, []⟩
  | some _ => none

/-- Adds an entry to the table of the last header. -/
def add (d : Draft) (path : List Text) (v : Value) : Option Draft :=
  (addEntry path v d.entries).map fun entries => { d with entries }

end Draft

/-- What follows the line that ends at the start of a text, after blanks and a comment. -/
def afterLine? (t : Text) : Option Text :=
  let t := skipComment (skipBlanks t)
  match t with
  | [] => some []
  | _ => afterLineBreak? t

/-- Reads one line into a draft and gives what follows it. -/
def readLine? (d : Draft) (t : Text) : Option (Draft × Text) :=
  match t with
  | '[' :: '[' :: rest => do
    let (path, rest) ← readKey? rest
    let d ← d.startRow path
    return (d, ← afterLine? (← after? ']' (← after? ']' rest)))
  | '[' :: rest => do
    let (path, rest) ← readKey? rest
    let d ← d.startTable path
    return (d, ← afterLine? (← after? ']' rest))
  | _ =>
    match afterLine? t with
    | some rest => some (d, rest)
    | none => do
      let (path, v, rest) ← readEntry? (readValue? (depthLimit - 1)) t
      return (← d.add path v, ← afterLine? rest)

/-- Reads the lines that are left into a draft. -/
def readLinesInto? (d : Draft) (t : Text) : Option Entries :=
  let t' := skipBlanks t
  if t'.isEmpty then d.finish
  else
    match readLine? d t' with
    | none => none
    | some (d, rest) => if rest.length < t.length then readLinesInto? d rest else none
termination_by t.length

/-- The entries of a document, which may start with a byte order mark. -/
def readDocument? (t : Text) : Option Entries :=
  readLinesInto? .empty (if t.head? = some '\ufeff' then t.tail else t)

end Toml

end ClassHighlight
