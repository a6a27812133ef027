import CaseRegistry.Sync.Cycle
import CaseRegistry.Text.Blank
import CaseRegistry.Text.Decimal

/-!
Settings from the environment. A variable that is not set, and where it says so one that is blank,
leaves the default.
-/
namespace CaseRegistry

/-- The value of each variable that is set. -/
abbrev Environment : Type := String → Option String

namespace SyncConfig

def defaultStream : String := "loc"

def defaultPollMillis : Nat := 6000

/-- The defaults for a node. -/
def new (nodeOwner : Identity) : SyncConfig := ⟨defaultStream, nodeOwner, defaultPollMillis⟩

/-- A pause that is no number of milliseconds in 64 bits is as good as none given. -/
def ofEnvironment (env : Environment) : Except Error SyncConfig :=
  match (env "LOC_NODE_OWNER").filter (!Text.isBlank ·) with
  | none => .error (.configuration "LOC_NODE_OWNER is not set")
  | some owner => .ok {
      stream := ((env "LOC_SYNC_STREAM").filter (!Text.isBlank ·)).getD defaultStream
      nodeOwner := ⟨owner⟩
      pollMillis := ((env "LOC_SYNC_POLL_MS").bind (Decimal.ofUnsigned? 64 ·.toList)).getD
        defaultPollMillis }

end SyncConfig

/-- How the program tells of its doings. -/
structure TelemetryConfig where
  serviceName : String
  jsonFormat : Bool
  logLevel : String
deriving DecidableEq

def TelemetryConfig.ofEnvironment (env : Environment) : TelemetryConfig where
  serviceName := (env "SERVICE_NAME").getD "loc-registry"
  jsonFormat := (env "LOG_JSON").any fun value => value = "true" ∨ value = "1"
  logLevel := ((env "LOG_LEVEL").or (env "RUST_LOG")).getD "info"

end CaseRegistry
