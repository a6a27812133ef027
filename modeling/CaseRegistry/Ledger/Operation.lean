import CaseRegistry.Error
import CaseRegistry.Json.Basic

/-!
Operations of the ledger, as they come in blocks: a namespaced kind, free arguments and fees.
Arguments are looked up by name and read when they are needed.
-/
namespace CaseRegistry

structure LedgerOperation where
  kind : String
  args : Json
  /-- Whether it failed on the ledger itself. -/
  failed : Bool
  partialFee : Option Nat
  storageFee : Option Nat

/-- The operations of one block, in the order in which they were emitted. -/
structure LedgerBlock where
  height : Nat
  timestamp : Timestamp
  operations : List LedgerOperation

namespace LedgerOperation

def new (kind : String) (args : Json) : LedgerOperation := ⟨kind, args, false, none, none⟩

def withPartialFee (fee : Nat) (op : LedgerOperation) : LedgerOperation :=
  { op with partialFee := some fee }

def withStorageFee (fee : Nat) (op : LedgerOperation) : LedgerOperation :=
  { op with storageFee := some fee }

def asFailed (op : LedgerOperation) : LedgerOperation := { op with failed := true }

/-- The text under a name. -/
def textArg (op : LedgerOperation) (name : String) : Except Error String :=
  match (op.args.get? name).bind Json.string? with
  | some text => .ok text
  | none => .error (.malformedOperation op.kind (.missing name))

/-- The case identifier under a name. -/
def caseIdArg (op : LedgerOperation) (name : String) : Except Error CaseId := do
  let text ← op.textArg name
  match CaseId.ofString? text with
  | some id => return id
  | none => .error (.malformedOperation op.kind (.invalid name))

/-- The fees of an operation that must be charged for inclusion. -/
def inclusionFees (op : LedgerOperation) : Except Error Fees :=
  match op.partialFee with
  | some fee => .ok ⟨fee, op.storageFee⟩
  | none => .error (.missingFee op.kind .partialFee)

/-- The fees of an operation that must be charged for storage as well. -/
def storageFees (op : LedgerOperation) : Except Error Fees := do
  let fees ← op.inclusionFees
  ensure fees.storage.isSome (.missingFee op.kind .storageFee)
  return fees

end LedgerOperation
end CaseRegistry
