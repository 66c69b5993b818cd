import ClassHighlight.Buffer.Position
import ClassHighlight.Mode

/-!
# Command-line arguments

Options have a long name after two hyphens and most have a letter after one. A value follows as the
next argument or is attached: after an equals sign, or directly after a letter. Letters can share a
hyphen. After two hyphens alone everything is a file. The arguments are read in order, and the
first problem, or the first request for the version or for help, decides.
-/

namespace ClassHighlight

namespace Cli

/-- How highlights are printed. -/
inductive Format where
  /-- The file with escape sequences. -/
  | ansi
  /-- One line for each span. -/
  | spans
  /-- A report in JSON. -/
  | json
deriving DecidableEq, Repr

namespace Format

/-- The name of a format. -/
def name : Format → Text
  | .ansi => "ansi".toList
  | .spans => "spans".toList
  | .json => "json".toList

/-- The format with exactly the given name. -/
def ofName? (t : Text) : Option Format :=
  [ansi, spans, json].find? fun f => f.name == t

end Format

/-- What the arguments say; an option that was not given has no value. -/
structure Arguments where
  /-- The file to highlight. -/
  file? : Option Text
  /-- The mode. -/
  mode? : Option Mode
  /-- The position of the cursor. -/
  cursor? : Option Position
  /-- The name of the preset. -/
  preset? : Option Text
  /-- The configuration file. -/
  config? : Option Text
  /-- The format. -/
  format? : Option Format
  /-- How often more messages were asked for. -/
  verbosity : Nat
deriving DecidableEq, Repr

namespace Arguments

/-- Nothing was given. -/
def empty : Arguments := ⟨none, none, none, none, none, none, 0⟩

end Arguments

/-- An option that takes a value. -/
inductive ValueOption where
  /-- The mode. -/
  | mode
  /-- The position of the cursor. -/
  | cursor
  /-- The preset. -/
  | preset
  /-- The configuration file. -/
  | config
  /-- The format. -/
  | format
deriving DecidableEq, Repr

/-- An option. -/
inductive CliOption where
  /-- One that takes a value. -/
  | value (o : ValueOption)
  /-- Asks for more messages. -/
  | verbose
  /-- Asks for the version. -/
  | version
  /-- Asks for help. -/
  | help
deriving DecidableEq, Repr

namespace CliOption

/-- All options with their long names and their letters. -/
def table : List (CliOption × Text × Option Char) :=
  [(.value .mode, "mode".toList, some 'm'), (.value .cursor, "cursor".toList, some 'c'),
   (.value .preset, "preset".toList, some 'p'), (.value .config, "config".toList, none),
   (.value .format, "format".toList, some 'f'), (.verbose, "verbose".toList, some 'v'),
   (.version, "version".toList, some 'V'), (.help, "help".toList, some 'h')]

/-- The option with a long name. -/
def ofLong? (name : Text) : Option CliOption :=
  (table.find? fun entry => entry.2.1 == name).map Prod.fst

/-- The option with a letter. -/
def ofLetter? (letter : Char) : Option CliOption :=
  (table.find? fun entry => entry.2.2 == some letter).map Prod.fst

end CliOption

/-- What is wrong with the arguments. -/
inductive UsageError where
  /-- There is no such option. -/
  | unknownOption (argument : Text)
  /-- An option lacks its value. -/
  | missingValue (o : ValueOption)
  /-- A value is attached to an option that takes none. -/
  | unexpectedValue (argument : Text)
  /-- An option does not take this value. -/
  | invalidValue (o : ValueOption) (value : Text)
  /-- An option was given before. -/
  | repeated (o : ValueOption)
  /-- A second file is given, or an empty name. -/
  | unexpectedFile (argument : Text)
  /-- No file is given. -/
  | missingFile
deriving DecidableEq, Repr

namespace UsageError

/-- The long name of an option, with its hyphens. -/
def optionName (o : ValueOption) : Text :=
  let name := (CliOption.table.find? fun entry => entry.1 == .value o).map fun entry => entry.2.1
  ['-', '-'] ++ name.getD []

/-- The message of an error. -/
def message : UsageError → Text
  | .unknownOption t => "unexpected argument '".toList ++ t ++ "' found".toList
  | .missingValue o => "a value is required for '".toList ++ optionName o ++ "'".toList
  | .unexpectedValue t => "unexpected value in '".toList ++ t ++ "'".toList
  | .invalidValue o t =>
    "invalid value '".toList ++ t ++ "' for '".toList ++ optionName o ++ "'".toList
  | .repeated o => "the option '".toList ++ optionName o ++ "' is given twice".toList
  | .unexpectedFile t => "unexpected argument '".toList ++ t ++ "' found".toList
  | .missingFile => "a file is required".toList

end UsageError

/-- What the arguments ask for. -/
inductive Request where
  /-- Highlights a file. -/
  | highlight (file : Text) (arguments : Arguments)
  /-- Prints the version. -/
  | version
  /-- Prints how to use the program. -/
  | help
deriving DecidableEq, Repr

namespace Arguments

/-- Gives an option its value, which it may get only once. -/
def setValue (a : Arguments) (o : ValueOption) (t : Text) : Except UsageError Arguments :=
  let store {α : Type} (old : Option α) (value? : Option α) (put : α → Arguments) :
      Except UsageError Arguments :=
    if old.isSome then .error (.repeated o)
    else
      match value? with
      | some v => .ok (put v)
      | none => .error (.invalidValue o t)
  match o with
  | .mode => store a.mode? (Mode.parse t).toOption fun m => { a with mode? := some m }
  | .cursor => store a.cursor? (Position.parse t).toOption fun p => { a with cursor? := some p }
  | .preset => store a.preset? (some t) fun t => { a with preset? := some t }
  | .config =>
    store a.config? (if t.isEmpty then none else some t) fun t => { a with config? := some t }
  | .format => store a.format? (Format.ofName? t) fun f => { a with format? := some f }

/-- Takes an argument as the file. -/
def setFile (a : Arguments) (t : Text) : Except UsageError Arguments :=
  if a.file?.isSome || t.isEmpty then .error (.unexpectedFile t)
  else .ok { a with file? := some t }

end Arguments

/-- Where reading stands after an argument. -/
inductive Progress where
  /-- The next argument is independent of this one. -/
  | ready (a : Arguments)
  /-- The next argument is the value of an option. -/
  | awaiting (a : Arguments) (o : ValueOption)
  /-- The answer is known whatever follows. -/
  | answer (r : Request)

/-- Reads an option with a long name; the argument is given without its hyphens. -/
def readLong (a : Arguments) (t : Text) : Except UsageError Progress :=
  let name := t.takeWhile (· != '=')
  let attached? := match t.dropWhile (· != '=') with
    | _ :: value => some value
    | [] => none
  match CliOption.ofLong? name, attached? with
  | none, _ => .error (.unknownOption (['-', '-'] ++ t))
  | some (.value o), some value => (a.setValue o value).map .ready
  | some (.value o), none => .ok (.awaiting a o)
  | some _, some _ => .error (.unexpectedValue (['-', '-'] ++ t))
  | some .verbose, none => .ok (.ready { a with verbosity := a.verbosity + 1 })
  | some .version, none => .ok (.answer .version)
  | some .help, none => .ok (.answer .help)

/-- Reads the letters after a hyphen. -/
def readLetters (a : Arguments) : Text → Except UsageError Progress
  | [] => .ok (.ready a)
  | letter :: rest =>
    match CliOption.ofLetter? letter with
    | none => .error (.unknownOption ['-', letter])
    | some (.value o) =>
      match rest with
      | [] => .ok (.awaiting a o)
      | '=' :: value => (a.setValue o value).map .ready
      | value => (a.setValue o value).map .ready
    | some .verbose => readLetters { a with verbosity := a.verbosity + 1 } rest
    | some .version => .ok (.answer .version)
    | some .help => .ok (.answer .help)

/-- Reads arguments that are all files. -/
def readFiles (a : Arguments) : List Text → Except UsageError Arguments
  | [] => .ok a
  | t :: rest => (a.setFile t).bind fun a => readFiles a rest

/-- Whether an argument starts as options do: with a hyphen that is not all of it. -/
def looksLikeOption (t : Text) : Bool :=
  match t with
  | '-' :: _ :: _ => true
  | _ => false

/-- What the arguments ask for when all were read. -/
def request (a : Arguments) : Except UsageError Request :=
  match a.file? with
  | some file => .ok (.highlight file a)
  | none => .error .missingFile

mutual

/-- Reads arguments after some that said `a`. -/
def readFrom (a : Arguments) : List Text → Except UsageError Request
  | [] => request a
  | t :: rest =>
    match t with
    | ['-', '-'] => (readFiles a rest).bind request
    | '-' :: '-' :: long => (readLong a long).bind fun p => readAfter p rest
    | '-' :: letter :: letters => (readLetters a (letter :: letters)).bind fun p => readAfter p rest
    | t => (a.setFile t).bind fun a => readFrom a rest
termination_by ts => (ts.length, 0)

/-- Reads arguments after one that led to `p`. -/
def readAfter (p : Progress) (ts : List Text) : Except UsageError Request :=
  match p, ts with
  | .answer r, _ => .ok r
  | .ready a, ts => readFrom a ts
  | .awaiting _ o, [] => .error (.missingValue o)
  | .awaiting a o, t :: rest =>
    if looksLikeOption t then .error (.missingValue o)
    else (a.setValue o t).bind fun a => readFrom a rest
termination_by (ts.length, 1)

end

/-- Reads the arguments. -/
def read (ts : List Text) : Except UsageError Request :=
  readFrom .empty ts

end Cli

end ClassHighlight
