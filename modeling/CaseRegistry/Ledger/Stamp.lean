import CaseRegistry.Action
import CaseRegistry.Case.Operation
import CaseRegistry.Ledger.Kind
import CaseRegistry.Ledger.Operation

/-!
Chain stamps: what an operation of the ledger says of its target case, read from its kind and
arguments, and how that is put on the case.
-/
namespace CaseRegistry

inductive ChainStamp where
  | created (fees : Fees)
  | itemAdded (kind : ItemKind) (key : kind.Key) (fees : Fees)
  | itemAcknowledged (kind : ItemKind) (key : kind.Key)
  | closed
  | voided (replacer : Option CaseId)
  | collectionItemAdded (itemId : String) (fees : Fees)

namespace ChainStamp

/-- The key of an item of the given kind among the arguments of an operation. -/
def keyArg (op : LedgerOperation) : (kind : ItemKind) → Except Error kind.Key
  | .file => ContentHash.mk <$> op.textArg "hash"
  | .metadata => op.textArg "name"
  | .link => op.caseIdArg "target"

/-- Files take room, so theirs are charged for storage too. -/
def itemFees (op : LedgerOperation) : ItemKind → Except Error Fees
  | .file => op.storageFees
  | .metadata | .link => op.inclusionFees

def itemAddedBy (op : LedgerOperation) (kind : ItemKind) : Except Error ChainStamp := do
  let key ← keyArg op kind
  let fees ← itemFees op kind
  return .itemAdded kind key fees

def itemAcknowledgedBy (op : LedgerOperation) (kind : ItemKind) : Except Error ChainStamp := do
  let key ← keyArg op kind
  return .itemAcknowledged kind key

/-- The stamp of an operation of a kind; `none` for kinds that touch no case. -/
def ofOperation (kind : OperationKind) (op : LedgerOperation) : Except Error (Option ChainStamp) :=
  match kind with
  | .createIdentity | .createTransaction | .createCollection => do
    let fees ← op.inclusionFees
    return some (.created fees)
  | .addFile => some <$> itemAddedBy op .file
  | .addMetadata => some <$> itemAddedBy op .metadata
  | .addLink => some <$> itemAddedBy op .link
  | .acknowledgeFile => some <$> itemAcknowledgedBy op .file
  | .acknowledgeMetadata => some <$> itemAcknowledgedBy op .metadata
  | .acknowledgeLink => some <$> itemAcknowledgedBy op .link
  | .close => .ok (some .closed)
  | .makeVoid => .ok (some (.voided none))
  | .makeVoidAndReplace => do
    let replacer ← op.caseIdArg "replacer_id"
    return some (.voided (some replacer))
  | .addCollectionItem => do
    let itemId ← op.textArg "item_id"
    let fees ← op.inclusionFees
    return some (.collectionItemAdded itemId fees)
  | .nominateIssuer | .dismissIssuer | .setIssuerSelection | .sponsor => .ok none

/-- The operations on a case that a stamp of a block with the given time consists of. -/
def operations (on : Timestamp) : ChainStamp → List CaseOperation
  | .created fees => [.setCreatedDate on, .setCreationFees fees]
  | .itemAdded kind key fees => [.stampItem kind (.added on) key, .stampItem kind (.fees fees) key]
  | .itemAcknowledged kind key => [.stampItem kind (.acknowledged on) key]
  | .closed => [.close on]
  | .voided none => [.makeVoid on]
  | .voided (some replacer) => [.voidAndReplace replacer on]
  | .collectionItemAdded itemId fees => [.addCollectionItem itemId on fees]

end ChainStamp

namespace Case

/-- Does operations on a case one after the other, merging their change sets into what has come
about so far. The first failure ends it, with what was done before in place. -/
def performFrom (total : ChangeSet) : List CaseOperation → Action Case ChangeSet
  | [] => pure total
  | op :: rest => do
    let reply ← apply op
    performFrom (total.merge reply.changeSet) rest

def perform (operations : List CaseOperation) : Action Case ChangeSet := performFrom ∅ operations

end Case

/-- Puts a stamp of a block with the given time on a case. -/
def ChainStamp.apply (stamp : ChainStamp) (on : Timestamp) : Action Case ChangeSet :=
  Case.perform (stamp.operations on)

end CaseRegistry
