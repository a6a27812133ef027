import CaseRegistry.Format.Case
import CaseRegistry.Json.Writer
import CaseRegistry.Sync.Run

/-!
Replaying recorded blocks against cases, and the summary of it. Blocks and cases go into stores in
memory, and one cycle runs over them, or two where the first finds its checkpoint above the chain
and starts over.
-/
namespace CaseRegistry

/-- An outcome in print. -/
def SyncOutcome.describe : SyncOutcome → String
  | upToDate height => s!"UpToDate \x7b height: {height} \x7d"
  | advanced before after applied skipped =>
    s!"Advanced \x7b from: {before}, to: {after}, applied: {applied}, skipped: {skipped} \x7d"
  | reset checkpoint head => s!"Reset \x7b checkpoint: {checkpoint}, head: {head} \x7d"

namespace Replay

structure Report where
  outcome : SyncOutcome
  stats : SyncStats
  cases : List Case
deriving DecidableEq

/-- The stores before the replay. -/
def load (cases : List Case) (blocks : List LedgerBlock) (stream : String)
    (checkpoint : Option Nat) : Memory where
  repository := cases.foldl Repository.insert .empty
  checkpoints := match checkpoint with
    | some height => Checkpoints.empty.save stream height
    | none => .empty
  journal := .empty
  chain := blocks.foldl Chain.push .empty

/-- A cycle, and another one if the first was a reset. -/
def cycles (config : SyncConfig) : Action (Synchronizer Memory) SyncOutcome := do
  match ← Synchronizer.cycle Memory.backend config with
  | .reset _ _ => Synchronizer.cycle Memory.backend config
  | outcome => return outcome

def run (config : SyncConfig) (checkpoint : Option Nat) (cases : List Case)
    (blocks : List LedgerBlock) : Except Error Report :=
  match (cycles config).run (.new (load cases blocks config.stream checkpoint)) with
  | (.ok outcome, s) => .ok ⟨outcome, s.stats, s.store.repository.list .all⟩
  | (.error e, _) => .error e

namespace Report

def statsSummary (s : SyncStats) : Json :=
  .object [
    ("blocks_processed", .nat s.blocksProcessed),
    ("operations_applied", .nat s.operationsApplied),
    ("operations_skipped", .nat s.operationsSkipped)]

/-- The summary as a JSON value. -/
def summary (r : Report) : Json :=
  .object [
    ("outcome", .string r.outcome.describe),
    ("stats", statsSummary r.stats),
    ("cases", (Json.Codec.list Format.caseRecord).write r.cases)]

/-- Whether a number fits in 64 bits, with or without a sign. -/
def IsPlain : Json.Number → Bool
  | .integer (.ofNat n) => n < Nat.pow 2 64
  | .integer (.negSucc n) => n < Nat.pow 2 63
  | .spelled _ => true

/-- The summary in print, with the fields of objects in order. Values are gathered in a form whose
numbers have 64 bits, so there is none if a fee takes more. -/
def print? (r : Report) : Option String :=
  if r.summary.numbers.all IsPlain then some r.summary.canonical.pretty else none

end Report
end Replay
end CaseRegistry
