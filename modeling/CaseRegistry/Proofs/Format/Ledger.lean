import CaseRegistry.Format.Ledger
import CaseRegistry.Proofs.Format.Values
import Mathlib.Tactic.MkIffOfInductiveProp

/-! Ledger operations and blocks, checkpoints and block records are written and read lawfully. The
arguments of an operation are free, so that they fit only where the depth left to them is enough. -/
namespace CaseRegistry

open Json (Number)

/-- Arguments that can be read through and through, in order and not too deep. -/
@[mk_iff]
structure LedgerOperation.Fits (allowed : Number → Prop) (limit depth : Nat) (op : LedgerOperation) :
    Prop where
  args : op.args.FitsIn allowed depth
  readable : op.args.isReadable
  ordered : op.args.canonical = op.args
  partialFee : ∀ fee ∈ op.partialFee, fee < limit
  storageFee : ∀ fee ∈ op.storageFee, fee < limit

def LedgerBlock.Fits (allowed : Number → Prop) (limit depth : Nat) (b : LedgerBlock) : Prop :=
  b.height < 2 ^ 64 ∧ b.timestamp.date.IsInRange ∧ ∀ op ∈ b.operations, op.Fits allowed limit depth

def CheckpointRecord.Fits (c : CheckpointRecord) : Prop :=
  c.height < 2 ^ 64 ∧ c.updatedOn.date.IsInRange

def BlockRecord.Fits (r : BlockRecord) : Prop :=
  r.height < 2 ^ 64 ∧ r.timestamp.date.IsInRange ∧ r.applied < 2 ^ 64 ∧ r.skipped < 2 ^ 64

namespace Format

open Json

section Lawful

variable {allowed : Number → Prop} {depth limit : Nat}

theorem lawful_ledgerOperation (admits : Admits allowed limit) :
    ledgerOperation.Lawful allowed (depth + 1) (LedgerOperation.Fits allowed limit depth) :=
  Record.Lawful.codec
    (.cons (.required .string) <|
      .cons (.defaulted .free ⟨.null, rfl, rfl⟩) <|
      .cons (.defaulted .bool trivial) <|
      .cons (.trailing (lawful_amount admits) rfl) <|
      .cons (.trailing (lawful_amount admits) rfl) .nil)
    (by decide) (fun _ => rfl) (fun _ => rfl) (by simp [LedgerOperation.fits_iff, and_assoc])

theorem lawful_ledgerBlock (admits : Admits allowed limit) :
    ledgerBlock.Lawful allowed (depth + 3) (LedgerBlock.Fits allowed limit depth) :=
  Record.Lawful.codec
    (.cons (.required (lawful_count admits)) <|
      .cons (.required lawful_timestamp) <|
      .cons (.defaulted (.list (lawful_ledgerOperation admits)) (by simp)) .nil)
    (by decide) (fun _ => rfl) (fun _ => rfl) (by simp [LedgerBlock.Fits])

theorem lawful_checkpoint (admits : Admits allowed limit) :
    checkpoint.Lawful allowed (depth + 1) CheckpointRecord.Fits :=
  Record.Lawful.codec
    (.cons (.required .string) <|
      .cons (.required (lawful_count admits)) <|
      .cons (.required lawful_timestamp) .nil)
    (by decide) (fun _ => rfl) (fun _ => rfl) (by simp [CheckpointRecord.Fits])

theorem lawful_blockRecord (admits : Admits allowed limit) :
    blockRecord.Lawful allowed (depth + 1) BlockRecord.Fits :=
  Record.Lawful.codec
    (.cons (.required (lawful_count admits)) <|
      .cons (.required lawful_timestamp) <|
      .cons (.required (lawful_count admits)) <|
      .cons (.required (lawful_count admits)) .nil)
    (by decide) (fun _ => rfl) (fun _ => rfl) (by simp [BlockRecord.Fits])

end Lawful
end Format
end CaseRegistry
