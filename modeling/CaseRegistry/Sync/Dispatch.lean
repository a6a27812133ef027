import CaseRegistry.Ledger.Stamp
import CaseRegistry.Service

/-!
Dispatch of one ledger operation. It goes to the case it names if it succeeded on the ledger, is
of a kind that concerns cases, and the case is one of this node. An operation that this registry
should follow and cannot is an error.
-/
namespace CaseRegistry

/-- Why an operation was passed over. -/
inductive SkipReason where
  | failedOnChain
  | foreign
  | noMutation
  | unknownTarget
  | otherOwner
deriving DecidableEq

def SkipReason.describe : SkipReason → String
  | failedOnChain => "failed on chain"
  | foreign => "foreign operation"
  | noMutation => "no case mutation"
  | unknownTarget => "unknown target case"
  | otherOwner => "case owned by another node"

inductive DispatchResult where
  /-- The case was stamped and saved. -/
  | applied (id : CaseId)
  | skipped (reason : SkipReason)
deriving DecidableEq

namespace Backend

variable {σ : Type} (b : Backend σ)

/-- Puts what an operation says on a case of this node. -/
def stampCase (kind : OperationKind) (op : LedgerOperation) (on : Timestamp) (id : CaseId) :
    Action σ DispatchResult := do
  match ← Action.ofExcept (ChainStamp.ofOperation kind op) with
  | none => return .skipped .noMutation
  | some stamp =>
    let _ ← b.mutate id (stamp.apply on)
    return .applied id

/-- Dispatches an operation of a kind that names a case. -/
def dispatchTargeted (nodeOwner : Identity) (kind : OperationKind) (op : LedgerOperation)
    (on : Timestamp) : Action σ DispatchResult := do
  let id ← Action.ofExcept (op.caseIdArg "loc_id")
  match ← b.findCase id with
  | none =>
    if kind.targetPolicy = .tolerant then return .skipped .unknownTarget
    else Action.fail (.missingTarget op.kind id)
  | some c =>
    if c.owner = nodeOwner then b.stampCase kind op on id
    else return .skipped .otherOwner

/-- Dispatches an operation of a block with the given time. -/
def dispatch (nodeOwner : Identity) (op : LedgerOperation) (on : Timestamp) :
    Action σ DispatchResult := do
  if op.failed then return .skipped .failedOnChain
  else
    match ← Action.ofExcept (OperationKind.classify op.kind) with
    | none => return .skipped .foreign
    | some kind =>
      if kind.targetPolicy = .untargeted then return .skipped .noMutation
      else b.dispatchTargeted nodeOwner kind op on

end Backend
end CaseRegistry
