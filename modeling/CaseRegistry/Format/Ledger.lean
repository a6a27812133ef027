import CaseRegistry.Format.Values
import CaseRegistry.Ledger.Operation
import CaseRegistry.Store.Checkpoints
import CaseRegistry.Store.Journal

/-!
The JSON form of ledger operations and blocks, of checkpoints and of block records.
-/
namespace CaseRegistry.Format

open Json

/-- Every field but the kind may be missing. -/
def ledgerOperation : Codec LedgerOperation :=
  Record.codec
    (.cons (.required "kind" .string) <|
      .cons (.defaulted "args" .free .null) <|
      .cons (.defaulted "failed" .bool false) <|
      .cons (.trailing "partial_fee" amount) <|
      .cons (.trailing "storage_fee" amount) .nil)
    (fun op => (op.kind, op.args, op.failed, op.partialFee, op.storageFee, ()))
    (fun (kind, args, failed, partialFee, storageFee, ()) =>
      { kind, args, failed, partialFee, storageFee })

def ledgerBlock : Codec LedgerBlock :=
  Record.codec
    (.cons (.required "height" count) <|
      .cons (.required "timestamp" timestamp) <|
      .cons (.defaulted "operations" (.list ledgerOperation) []) .nil)
    (fun b => (b.height, b.timestamp, b.operations, ()))
    (fun (height, timestamp, operations, ()) => ⟨height, timestamp, operations⟩)

def checkpoint : Codec CheckpointRecord :=
  Record.codec
    (.cons (.required "name" .string) <|
      .cons (.required "height" count) <|
      .cons (.required "updated_on" timestamp) .nil)
    (fun c => (c.name, c.height, c.updatedOn, ()))
    (fun (name, height, updatedOn, ()) => ⟨name, height, updatedOn⟩)

def blockRecord : Codec BlockRecord :=
  Record.codec
    (.cons (.required "height" count) <|
      .cons (.required "timestamp" timestamp) <|
      .cons (.required "applied" count) <|
      .cons (.required "skipped" count) .nil)
    (fun r => (r.height, r.timestamp, r.applied, r.skipped, ()))
    (fun (height, timestamp, applied, skipped, ()) => ⟨height, timestamp, applied, skipped⟩)

end CaseRegistry.Format
