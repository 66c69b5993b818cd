import ClassHighlight.Cli.Run

/-!
# The command line

Reads the files that the arguments name and prints what the library makes of them. The exit code is
0 on success, 1 if a file cannot be highlighted, and 2 if the arguments are wrong.
-/

open ClassHighlight

/-- The content of a file, unless it cannot be read. -/
def readContent? (path : Text) : IO (Option ByteArray) := do
  try
    return some (← IO.FS.readBinFile (String.ofList path))
  catch _ =>
    return none

/-- The directory in which programs keep the user's configurations: the one that the environment
names, if it is named from the root, or else the usual one in the user's home. -/
def configDirectory : IO Text := do
  let named := ((← IO.getEnv "XDG_CONFIG_HOME").getD "").toList
  if named.head? == some '/' then
    return named
  else
    return ((← IO.getEnv "HOME").getD "").toList ++ "/.config".toList

/-- Answers one request. -/
def respond : Cli.Request → IO UInt32
  | .version => do
    IO.print (String.ofList Cli.versionText)
    return 0
  | .help => do
    IO.print (String.ofList Cli.helpText)
    return 0
  | .highlight file arguments => do
    let configPath := arguments.config?.getD (Config.defaultPath (← configDirectory))
    let config? ← readContent? configPath
    let content? ← readContent? file
    match Cli.highlight file arguments config? content? with
    | .ok t =>
      IO.print (String.ofList t)
      return 0
    | .error e =>
      IO.eprintln (String.ofList ("Error: ".toList ++ e.message))
      return 1

/-- Highlights the file that the arguments name. -/
def main (arguments : List String) : IO UInt32 := do
  match Cli.read (arguments.map String.toList) with
  | .ok request => respond request
  | .error e =>
    IO.eprintln (String.ofList ("error: ".toList ++ e.message))
    return 2
