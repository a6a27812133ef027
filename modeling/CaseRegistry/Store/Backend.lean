import CaseRegistry.Action
import CaseRegistry.Store.Chain
import CaseRegistry.Store.Checkpoints
import CaseRegistry.Store.Journal
import CaseRegistry.Store.Repository

/-!
What the registry relies on: a repository of cases, checkpoints, a journal and a ledger. A
`Backend` supplies them over a state of its own, and any call may fail. `Memory.backend` holds
everything in memory and fails only where the ledger is asked for a block above its head.
-/
namespace CaseRegistry

structure Backend (σ : Type) where
  findCase : CaseId → Action σ (Option Case)
  listCases : CaseFilter → Action σ (List Case)
  /-- Saves a case along with what its last operation did to its items. -/
  saveCase : Case → ChangeSet → Action σ Unit
  /-- The height of the checkpoint of a stream. -/
  findCheckpoint : String → Action σ (Option Nat)
  saveCheckpoint : String → Nat → Action σ Unit
  deleteCheckpoint : String → Action σ Unit
  recordBlock : String → BlockRecord → Action σ Unit
  discardRecords : String → Action σ Unit
  /-- The height of the head of the ledger. -/
  headHeight : Action σ Nat
  fetchBlock : Nat → Action σ LedgerBlock

/-- All stores, held in memory. -/
structure Memory where
  repository : Repository
  checkpoints : Checkpoints
  journal : Journal
  chain : Chain

namespace Memory

def empty : Memory := ⟨.empty, .empty, .empty, .empty⟩

instance : Inhabited Memory := ⟨empty⟩

def backend : Backend Memory where
  findCase id := do
    let m ← Action.get
    return m.repository.find? id
  listCases filter := do
    let m ← Action.get
    return m.repository.list filter
  saveCase c changes :=
    Action.modify fun m => { m with repository := m.repository.save c changes }
  findCheckpoint stream := do
    let m ← Action.get
    return m.checkpoints.height? stream
  saveCheckpoint stream height :=
    Action.modify fun m => { m with checkpoints := m.checkpoints.save stream height }
  deleteCheckpoint stream :=
    Action.modify fun m => { m with checkpoints := m.checkpoints.delete stream }
  recordBlock stream block :=
    Action.modify fun m => { m with journal := m.journal.record stream block }
  discardRecords stream :=
    Action.modify fun m => { m with journal := m.journal.discard stream }
  headHeight := do
    let m ← Action.get
    return m.chain.head
  fetchBlock height :=
    Action.step fun m => do
      let (chain, block) ← m.chain.fetch height
      return ({ m with chain }, block)

end Memory
end CaseRegistry
