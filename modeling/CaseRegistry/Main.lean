import CaseRegistry.Replay.Program

/-!
The command line. It reads the files that the arguments name, and prints or writes what the replay
comes to.
-/
namespace CaseRegistry.Main

open Replay

/-- The variables that settings are taken from. -/
def settingNames : List String :=
  ["LOC_NODE_OWNER", "LOC_SYNC_STREAM", "LOC_SYNC_POLL_MS", "SERVICE_NAME", "LOG_JSON", "LOG_LEVEL",
    "RUST_LOG"]

/-- The value under a name. -/
def lookup (table : List (String × String)) (name : String) : Option String :=
  (table.find? (·.1 = name)).map Prod.snd

def readEnvironment : IO (List (String × String)) :=
  settingNames.filterMapM fun name => do
    let value ← IO.getEnv name
    return value.map (name, ·)

/-- The text of a file, if it can be read. -/
def readText (path : String) : IO (Option String) := do
  try
    let text ← IO.FS.readFile path
    return some text
  catch _ => return none

def readFiles (paths : List String) : IO (List (String × String)) :=
  paths.filterMapM fun path => do
    let text ← readText path
    return text.map (path, ·)

/-- The files that arguments name. -/
def pathsOf (options : List String) : List String :=
  match Arguments.read options with
  | .ok (some args) => args.blocks.toList ++ args.cases.toList
  | _ => []

/-- Writes a summary where it belongs. -/
def deliver (text : String) : Option String → IO Ending
  | none => do
    IO.println text
    return .summary text none
  | some path => do
    try
      IO.FS.writeFile path text
      return .summary text (some path)
    catch _ => return .failed (.unwritable path)

def finish (ending : Ending) : IO UInt32 := do
  if ending.ShowsHelp then IO.eprintln helpText
  match ending with
  | .failed failure => IO.eprintln s!"Error: {failure.message}"
  | .aborted => IO.eprintln "number out of range"
  | .help | .summary _ _ => return ending.exitCode.toUInt32
  return ending.exitCode.toUInt32

end CaseRegistry.Main

open CaseRegistry in
def main (options : List String) : IO UInt32 := do
  let env ← Main.readEnvironment
  let files ← Main.readFiles (Main.pathsOf options)
  match Replay.program options (Main.lookup env) (Main.lookup files) with
  | .summary text output => do
    let ending ← Main.deliver text output
    Main.finish ending
  | ending => Main.finish ending
