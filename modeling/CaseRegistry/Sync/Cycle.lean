import CaseRegistry.Sync.Dispatch

/-!
A synchronization cycle. It compares the checkpoint of its stream with the head of the ledger.
Below the head, the blocks between are followed in order and the checkpoint moves up once all are
done. Above the head, the ledger is not the one that was followed: records and checkpoint are
discarded, and the next cycle begins from the start. The first error ends a cycle where it is.
-/
namespace CaseRegistry

structure SyncConfig where
  /-- The name under which the checkpoint is kept. -/
  stream : String
  /-- Whose cases this node keeps. -/
  nodeOwner : Identity
  /-- The pause between cycles, in milliseconds. -/
  pollMillis : Nat
deriving DecidableEq

inductive SyncOutcome where
  | upToDate (height : Nat)
  | advanced (before after applied skipped : Nat)
  | reset (checkpoint head : Nat)
deriving DecidableEq

/-- How many operations were applied and skipped. -/
structure Tally where
  applied : Nat
  skipped : Nat
deriving DecidableEq

namespace Tally

def zero : Tally := ⟨0, 0⟩

instance : Inhabited Tally := ⟨zero⟩

def count (t : Tally) : DispatchResult → Tally
  | .applied _ => { t with applied := t.applied + 1 }
  | .skipped _ => { t with skipped := t.skipped + 1 }

def addRecord (t : Tally) (r : BlockRecord) : Tally := ⟨t.applied + r.applied, t.skipped + r.skipped⟩

end Tally

namespace Backend

variable {σ : Type} (b : Backend σ) (config : SyncConfig)

/-- Dispatches operations of a block in order. -/
def dispatchAll (on : Timestamp) (tally : Tally) : List LedgerOperation → Action σ Tally
  | [] => return tally
  | op :: rest => do
    let result ← b.dispatch config.nodeOwner op on
    dispatchAll on (tally.count result) rest

/-- Follows the block at a height and records it. -/
def processBlock (height : Nat) : Action σ BlockRecord := do
  let block ← b.fetchBlock height
  let tally ← b.dispatchAll config block.timestamp .zero block.operations
  let record := ⟨height, block.timestamp, tally.applied, tally.skipped⟩
  b.recordBlock config.stream record
  return record

/-- Follows `n` blocks from a height on. -/
def processFrom (tally : Tally) : (height n : Nat) → Action σ Tally
  | _, 0 => return tally
  | height, n + 1 => do
    let record ← b.processBlock config height
    processFrom (tally.addRecord record) (height + 1) n

/-- Forgets what was followed of a ledger that is another one now. -/
def startOver (checkpoint head : Nat) : Action σ SyncOutcome := do
  b.discardRecords config.stream
  b.deleteCheckpoint config.stream
  return .reset checkpoint head

/-- Follows the ledger from a checkpoint to its head. -/
def advance (checkpoint head : Nat) : Action σ SyncOutcome := do
  let tally ← b.processFrom config .zero (checkpoint + 1) (head - checkpoint)
  b.saveCheckpoint config.stream head
  return .advanced checkpoint head tally.applied tally.skipped

def syncToHead : Action σ SyncOutcome := do
  let head ← b.headHeight
  let found ← b.findCheckpoint config.stream
  let checkpoint := found.getD 0
  if head < checkpoint then b.startOver config checkpoint head
  else if checkpoint = head then return .upToDate head
  else b.advance config checkpoint head

end Backend

/-! ### Statistics -/

structure SyncStats where
  cycles : Nat
  blocksProcessed : Nat
  operationsApplied : Nat
  operationsSkipped : Nat
  resets : Nat
  failedCycles : Nat
  lastHeight : Option Nat
deriving DecidableEq

namespace SyncStats

def zero : SyncStats := ⟨0, 0, 0, 0, 0, 0, none⟩

instance : Inhabited SyncStats := ⟨zero⟩

/-- Counts a cycle. What a failed cycle followed does not count: it is followed again. -/
def record (s : SyncStats) : Except Error SyncOutcome → SyncStats
  | .ok (.reset _ _) =>
    { s with cycles := s.cycles + 1, resets := s.resets + 1, lastHeight := none }
  | .ok (.advanced before after applied skipped) =>
    { s with
      cycles := s.cycles + 1
      blocksProcessed := s.blocksProcessed + (after - before)
      operationsApplied := s.operationsApplied + applied
      operationsSkipped := s.operationsSkipped + skipped
      lastHeight := some after }
  | .ok (.upToDate height) => { s with cycles := s.cycles + 1, lastHeight := some height }
  | .error _ => { s with cycles := s.cycles + 1, failedCycles := s.failedCycles + 1 }

end SyncStats
end CaseRegistry
