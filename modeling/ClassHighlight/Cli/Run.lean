import ClassHighlight.Cli.Arguments
import ClassHighlight.Config.File
import ClassHighlight.Json.Codec
import ClassHighlight.Session.Preview

/-!
# Highlighting from the command line

Highlights one file under the stored configuration, with the options in place of what is stored;
highlighting is always on.
-/

namespace ClassHighlight

namespace Cli

/-- Why a file is not highlighted. -/
inductive RunError where
  /-- The configuration file that was asked for holds no configuration. -/
  | config (path : Text)
  /-- The file cannot be opened. -/
  | file (path : Text)
  /-- The file has no such position. -/
  | cursor (p : Position)
deriving DecidableEq, Repr

/-- The message of an error. -/
def RunError.message : RunError → Text
  | .config path => "Failed to load config from ".toList ++ path
  | .file path => "Failed to open ".toList ++ path
  | .cursor p => "Cursor ".toList ++ p.render ++ " is outside the file".toList

/-- The configuration to highlight under, given the content of its file unless that is missing. The
file at the default place may hold nothing, one that was asked for may not. -/
def configFor (a : Arguments) (content? : Option ByteArray) : Except RunError Config := do
  let stored ←
    match a.config? with
    | some path => (Config.load content?).mapError fun _ => .config path
    | none => .ok (Config.loadDefault content?)
  return {
    stored with
    isEnabled := true
    mode := a.mode?.getD stored.mode
    preset := a.preset?.getD stored.preset }

/-- The report on a file. -/
def report (file : Text) (c : Config) (h : Highlights) : JsonValue :=
  .object
    [("file".toList, .string file), ("mode".toList, c.mode.toJson),
     ("preset".toList, .string c.preset), ("highlights".toList, Highlights.toJson h)]

/-- A preview in a format. -/
def print (format : Format) (file : Text) (c : Config) (p : Preview) : Text :=
  match format with
  | .ansi => p.ansi
  | .spans => p.listing
  | .json => (report file c p.highlights).write ++ ['\n']

/-- What is printed for a file, given the contents of the configuration file and of the file, unless
they are missing. -/
def highlight (file : Text) (a : Arguments) (config? content? : Option ByteArray) :
    Except RunError Text := do
  let config ← configFor a config?
  match Preview.ofFile config file content? (a.cursor?.map .position), a.cursor? with
  | .ok p, _ => return print (a.format?.getD .ansi) file config p
  | .error (.cursor _), some p => throw (.cursor p)
  | .error _, _ => throw (.file file)

/-- The name and version of the program. -/
def versionText : Text := "prism 0.1.0\n".toList

/-- How to use the program. -/
def helpText : Text :=
  ["Structural highlighting for utility classes",
    "",
    "Usage: prism [OPTIONS] <FILE>",
    "",
    "Options:",
    "  -m, --mode <full|cursor>  Highlight everything, or only what is around the cursor",
    "  -c, --cursor <LINE:COL>   Position of the cursor, counted from one",
    "  -p, --preset <NAME>       Color preset (Clear, Soft, Calm, Contrast, Muted)",
    "      --config <PATH>       Configuration file to use instead of the default one",
    "  -f, --format <FORMAT>     Output format: ansi, spans or json",
    "  -v, --verbose             More messages",
    "  -h, --help                Print help",
    "  -V, --version             Print version"].flatMap fun line => line.toList ++ ['\n']

end Cli

end ClassHighlight
