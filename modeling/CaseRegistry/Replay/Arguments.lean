import CaseRegistry.Settings

/-!
The command line of the replay: options with a value each, read from left to right, the last one
of a name counting. Asking for help ends the reading.
-/
namespace CaseRegistry.Replay

structure Arguments where
  /-- The file with the blocks. -/
  blocks : Option String
  /-- The file with the cases to start from. -/
  cases : Option String
  nodeOwner : Option String
  stream : Option String
  checkpoint : Option Nat
  /-- The file to write to. -/
  output : Option String
deriving DecidableEq

inductive ArgumentsError where
  | valueMissing (option : String)
  | unknownOption (option : String)
  | noHeight
deriving DecidableEq

def ArgumentsError.message : ArgumentsError → String
  | valueMissing option => option ++ " requires a value"
  | unknownOption option => "unknown option: " ++ option
  | noHeight => "--checkpoint must be a block height"

namespace Arguments

def none : Arguments := ⟨.none, .none, .none, .none, .none, .none⟩

/-- What an option does with its value. -/
def setter? : String → Option (String → Arguments → Except ArgumentsError Arguments)
  | "--blocks" => some fun value args => .ok { args with blocks := some value }
  | "--cases" => some fun value args => .ok { args with cases := some value }
  | "--node-owner" => some fun value args => .ok { args with nodeOwner := some value }
  | "--stream" => some fun value args => .ok { args with stream := some value }
  | "--checkpoint" => some fun value args =>
    match Decimal.ofUnsigned? 64 value.toList with
    | some height => .ok { args with checkpoint := some height }
    | .none => .error .noHeight
  | "--output" => some fun value args => .ok { args with output := some value }
  | _ => .none

/-- Reads the options after those read before; nothing where help is asked for. -/
def readFrom (args : Arguments) : List String → Except ArgumentsError (Option Arguments)
  | [] => .ok (some args)
  | option :: rest =>
    if option = "-h" ∨ option = "--help" then .ok .none
    else
      match setter? option, rest with
      | .none, _ => .error (.unknownOption option)
      | some _, [] => .error (.valueMissing option)
      | some set, value :: rest =>
        match set value args with
        | .ok args => readFrom args rest
        | .error e => .error e

def read (options : List String) : Except ArgumentsError (Option Arguments) :=
  readFrom none options

/-- The settings that arguments and environment make together; without an owner in either there
are none. -/
def config? (args : Arguments) (env : Environment) : Option SyncConfig := do
  let config ← match args.nodeOwner with
    | some owner =>
      let config := SyncConfig.new ⟨owner⟩
      some { config with stream := (env "LOC_SYNC_STREAM").getD config.stream }
    | .none => (SyncConfig.ofEnvironment env).toOption
  some { config with stream := args.stream.getD config.stream }

end Arguments
end CaseRegistry.Replay
