import CaseRegistry.Format.Ledger
import CaseRegistry.Json.Reader
import CaseRegistry.Replay.Arguments
import CaseRegistry.Replay.Report

/-!
The replay as a program: from its arguments, the environment and the files it may read to what it
prints or writes, or how it fails.
-/
namespace CaseRegistry.Replay

/-- Why the program gives up. -/
inductive Failure where
  | arguments (e : ArgumentsError)
  | noBlocks
  | noOwner
  | unreadable (path : String)
  | invalidCases (path : String)
  | invalidBlock (path : String) (line : Nat)
  | sync (e : Error)
  | unwritable (path : String)
deriving DecidableEq

def Failure.message : Failure → String
  | arguments e => e.message
  | noBlocks => "--blocks is required"
  | noOwner => "pass --node-owner or set LOC_NODE_OWNER"
  | unreadable path => "failed to read " ++ path
  | invalidCases path => path ++ ": invalid cases"
  | invalidBlock path line => s!"{path}:{line}: invalid ledger block"
  | sync e => e.message
  | unwritable path => "failed to write " ++ path

/-- What the program comes to. -/
inductive Ending where
  /-- Help was asked for. -/
  | help
  /-- A summary, for a file or else for the standard output. -/
  | summary (text : String) (output : Option String)
  | failed (failure : Failure)
  /-- The summary cannot be put together. -/
  | aborted
deriving DecidableEq

namespace Ending

/-- Whether the help text is shown. -/
def ShowsHelp (e : Ending) : Prop := e = help ∨ e = failed .noBlocks

instance (e : Ending) : Decidable e.ShowsHelp := inferInstanceAs (Decidable (_ ∨ _))

def exitCode : Ending → Nat
  | help | summary _ _ => 0
  | failed _ => 1
  | aborted => 101

end Ending

def helpText : String :=
"loc-replay

Replays recorded ledger blocks against a set of cases and prints the
resulting cases as JSON.

USAGE:
  loc-replay --blocks <path> [options]

OPTIONS:
  --blocks <path>                 (required) NDJSON file, one ledger block per line
  --cases <path>                  (optional) JSON array of cases to start from
  --node-owner <address>          (defaults to env LOC_NODE_OWNER)
  --stream <name>                 (defaults to env LOC_SYNC_STREAM or \"loc\")
  --checkpoint <n>                (optional) Height already processed
  --output <path>                 (optional) Output file path (default: stdout)
"

/-- The files that can be read, with their text. -/
abbrev Files : Type := String → Option String

def readFile (files : Files) (path : String) : Except Failure String :=
  match files path with
  | some text => .ok text
  | none => .error (.unreadable path)

def readCases (files : Files) (path : String) : Except Failure (List Case) := do
  let text ← readFile files path
  match (Json.ofString? text).bind (Json.Codec.list Format.caseRecord).read with
  | some cases => return cases
  | none => .error (.invalidCases path)

/-- Reads a block from each line that is not blank; lines count from `n`. -/
def readLines (path : String) (n : Nat) : List String → Except Failure (List LedgerBlock)
  | [] => .ok []
  | line :: rest =>
    if Text.isBlank line then readLines path (n + 1) rest
    else
      match (Json.ofString? line).bind Format.ledgerBlock.read with
      | some block => (block :: ·) <$> readLines path (n + 1) rest
      | none => .error (.invalidBlock path n)

def readBlocks (files : Files) (path : String) : Except Failure (List LedgerBlock) := do
  let text ← readFile files path
  readLines path 1 (Text.lines text)

/-- The report of a replay with the given arguments. -/
def report (args : Arguments) (env : Environment) (files : Files) : Except Failure Report := do
  match args.blocks with
  | none => .error .noBlocks
  | some blocksPath =>
    match args.config? env with
    | none => .error .noOwner
    | some config =>
      let cases ← match args.cases with
        | some path => readCases files path
        | none => .ok []
      let blocks ← readBlocks files blocksPath
      (run config args.checkpoint cases blocks).mapError .sync

def program (options : List String) (env : Environment) (files : Files) : Ending :=
  match Arguments.read options with
  | .error e => .failed (.arguments e)
  | .ok none => .help
  | .ok (some args) =>
    match report args env files with
    | .error failure => .failed failure
    | .ok report =>
      match report.print? with
      | some text => .summary text args.output
      | none => .aborted

end CaseRegistry.Replay
