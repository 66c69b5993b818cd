import ClassHighlight.Toml.Number
import ClassHighlight.Toml.StringForm

/-!
# Reading TOML keys and values

Each function reads from the start of a text and gives what follows. Values in brackets and braces
may stand within each other up to a fixed depth.
-/

namespace ClassHighlight

namespace Toml

/-- Keys and brackets may be nested less deep than this. -/
def depthLimit : Nat := 80

/-! ## Blanks and comments -/

/-- Whether a character may stand in a comment. -/
def isCommentChar (c : Char) : Bool := isInline c

/-- A text without the comment at its start. -/
def skipComment : Text → Text
  | '#' :: rest => rest.dropWhile isCommentChar
  | t => t

theorem length_skipComment_le (t : Text) : (skipComment t).length ≤ t.length := by
  unfold skipComment
  split
  · rename_i rest
    have := (List.dropWhile_sublist isCommentChar (l := rest)).length_le
    simp only [List.length_cons]
    omega
  · exact Nat.le_refl _

/-- A text without the blanks, comments and line breaks at its start. A comment that no line break
ends is left. -/
def skipSpace (t : Text) : Text :=
  match _h : afterLineBreak? (skipComment (skipBlanks t)) with
  | some rest => skipSpace rest
  | none => skipBlanks t
termination_by t.length
decreasing_by
  have hblanks : (skipBlanks t).length ≤ t.length := (List.dropWhile_sublist _).length_le
  have hcomment := length_skipComment_le (skipBlanks t)
  have := length_of_afterLineBreak? _h
  omega

/-! ## Keys -/

/-- Whether a character may stand in a key without quotes. -/
def isBareKeyChar (c : Char) : Bool := c.isAlphanum || c == '_' || c == '-'

/-- A single key, with or without quotes. -/
def readSimpleKey? : Text → Option (Text × Text)
  | '\x22' :: rest => readBasic? rest
  | '\x27' :: rest => readLiteral? rest
  | t =>
    let key := t.takeWhile isBareKeyChar
    if key.isEmpty then none else some (key, t.dropWhile isBareKeyChar)

/-- Up to `limit` keys with dots between them and blanks around each. -/
def readPath? (limit : Nat) (t : Text) : Option (List Text × Text) :=
  match limit with
  | 0 => none
  | limit + 1 =>
    (readSimpleKey? (skipBlanks t)).bind fun (key, rest) =>
      let rest := skipBlanks rest
      match after? '.' rest with
      | some more => (readPath? limit more).map fun (keys, last) => (key :: keys, last)
      | none => some ([key], rest)

/-- A dotted key. -/
def readKey? (t : Text) : Option (List Text × Text) := readPath? (depthLimit - 1) t

/-! ## Tables -/

/-- Changes the entries of the table at a path, seen from a table with given entries. Tables that
are missing on the way are created. A dotted key may only pass tables that no header and no braces
made; of the tables under a header in double brackets the last one counts. -/
def descend (isDotted : Bool) (change : Origin → Entries → Option Entries) :
    Origin → List Text → Entries → Option Entries
  | origin, [], entries => change origin entries
  | _, key :: path, entries =>
    let put (v : Value) : Entries :=
      entries.map fun entry => if entry.1 = key then (key, v) else entry
    match entries.lookup key with
    | none =>
      let origin := if isDotted then .dotted else .implied
      (descend isDotted change origin path []).map fun inner =>
        entries ++ [(key, .table origin inner)]
    | some (.table origin inner) =>
      if origin = .braces ∨ isDotted ∧ origin = .header then none
      else (descend isDotted change origin path inner).map fun inner => put (.table origin inner)
    | some (.tables rows) =>
      match rows.getLast? with
      | some row =>
        (descend isDotted change .header path row).map fun row =>
          put (.tables (rows.dropLast ++ [row]))
      | none => none
    | some _ => none

/-- Adds an entry under a dotted key, seen from a table with given entries. A key may be added only
once, and a dotted key only to tables that dotted keys made. -/
def addEntry (path : List Text) (v : Value) (entries : Entries) : Option Entries :=
  match path.getLast? with
  | none => none
  | some key =>
    let parents := path.dropLast
    descend true (fun origin entries =>
      if (origin == .dotted) == parents.isEmpty || (entries.lookup key).isSome then none
      else some (entries ++ [(key, v)])) .header parents entries

/-! ## Values -/

/-- An entry: a dotted key, an equals sign and a value. -/
def readEntry? (readValue? : Text → Option (Value × Text)) (t : Text) :
    Option (List Text × Value × Text) := do
  let (path, t) ← readKey? t
  let (v, t) ← readValue? (skipBlanks (← after? '=' t))
  return (path, v, t)

/-- The values of an array after the first bracket, up to and through the last. -/
def readItems? (readValue? : Text → Option (Value × Text)) (t : Text) :
    Option (List Value × Text) :=
  let first := skipSpace t
  match after? ']' first with
  | some rest => some ([], rest)
  | none =>
    match readValue? first with
    | none => none
    | some (v, rest) =>
      let rest := skipSpace rest
      match after? ',' rest, after? ']' rest with
      | some more, _ =>
        if more.length < t.length then
          (readItems? readValue? more).map fun (vs, last) => (v :: vs, last)
        else none
      | none, some last => some ([v], last)
      | none, none => none
termination_by t.length

/-- The entries of a table in braces after the first brace, up to and through the last, added to
given entries. -/
def readEntries? (readValue? : Text → Option (Value × Text)) (entries : Entries) (t : Text) :
    Option (Entries × Text) :=
  match readEntry? readValue? t with
  | none => none
  | some (path, v, rest) =>
    match addEntry path v entries with
    | none => none
    | some entries =>
      let rest := skipBlanks rest
      match after? ',' rest, after? '}' rest with
      | some more, _ =>
        if more.length < t.length then readEntries? readValue? entries more else none
      | none, some last => some (entries, last)
      | none, none => none
termination_by t.length

/-- A value, with brackets and braces less deep than a limit. -/
def readValue? (limit : Nat) (t : Text) : Option (Value × Text) :=
  match limit, t with
  | limit + 1, '[' :: rest =>
    (readItems? (readValue? limit) rest).map fun (vs, last) => (.array vs, last)
  | limit + 1, '{' :: rest =>
    match after? '}' (skipBlanks rest) with
    | some last => some (.table .braces [], last)
    | none =>
      (readEntries? (readValue? limit) [] rest).map fun (entries, last) =>
        (.table .braces entries, last)
  | _, c :: rest =>
    if c == '\x22' || c == '\x27' then
      (readString? (c :: rest)).map fun (t, last) => (.string t, last)
    else if c == 't' then
      (afterWord? "true".toList (c :: rest)).map fun last => (.boolean true, last)
    else if c == 'f' then
      (afterWord? "false".toList (c :: rest)).map fun last => (.boolean false, last)
    else readNumeric? (c :: rest)
  | _, [] => none

end Toml

end ClassHighlight
