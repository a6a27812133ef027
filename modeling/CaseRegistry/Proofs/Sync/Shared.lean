import CaseRegistry.Proofs.Sync.History

/-! Stores that a synchronizer shares with other callers.

A change of a case is a loading of the case and a saving of the changed copy, and nothing
is locked between the two. `Shared` holds the stores together with the copies that local
calls have in hand; `Shared.backend` is the stores in memory as a synchronizer meets them,
other callers having a turn before each of its calls. A call may also fail at its turn, so
that a cycle in progress is a cycle that ends there. What local calls did is noted in
`spans`: how often the synchronizer had saved a case when its copy was loaded, and how
often when it was saved back. A loading followed by its saving at once is
`Backend.mutate` (`save_load`). -/
namespace CaseRegistry

/-- A copy of a case in the hands of a local call. -/
structure Copy where
  taken : Case
  /-- How often the synchronizer had saved the case when the copy was loaded. -/
  version : Nat

/-- A local call saved its copy of a case. -/
structure Span where
  id : CaseId
  /-- How often the synchronizer had saved the case when the copy was loaded. -/
  loaded : Nat
  /-- How often it had done so when the copy was saved. -/
  saved : Nat
deriving DecidableEq

/-- A step of the local call with a number. -/
inductive LocalStep where
  | load (call : Nat) (id : CaseId)
  /-- Changes the copy in hand, and saves it if the change goes through. -/
  | save (call : Nat) (change : LocalChange)

/-- What comes before a call of the synchronizer: steps of others, and whether the call then fails. -/
structure Turn where
  steps : List LocalStep
  failure : Option Error

structure Shared where
  memory : Memory
  /-- The copy that a local call has in hand. -/
  copies : Nat → Option Copy
  /-- A case as the synchronizer saved it, time after time. -/
  stamped : CaseId → List Case
  spans : List Span
  /-- The turns to come. -/
  turns : List Turn

namespace Shared

/-- Stores with no local call under way. -/
def start (m : Memory) : Shared := ⟨m, fun _ => none, fun _ => [], [], []⟩

/-- How often the synchronizer has saved a case. -/
def version (s : Shared) (id : CaseId) : Nat := (s.stamped id).length

/-- The stores with what a local call has in hand. -/
def hold (s : Shared) (call : Nat) (copy : Option Copy) : Shared :=
  { s with copies := fun n => if n = call then copy else s.copies n }

/-- What a local call has in hand after loading a case. -/
def loadCopy (s : Shared) (id : CaseId) : Option Copy :=
  match ((Memory.backend.getCase id).run s.memory).1 with
  | .ok c => some ⟨c, s.version id⟩
  | .error _ => none

/-- Saves a changed copy if the change went through. -/
def putBack (s : Shared) (copy : Copy) (changed : Except Error ChangeSet × Case) : Shared :=
  match (Memory.backend.commit changed).run s.memory with
  | (.ok _, memory) =>
    { s with memory, spans := s.spans ++ [⟨copy.taken.id, copy.version, s.version copy.taken.id⟩] }
  | (.error _, memory) => { s with memory }

def localStep (s : Shared) : LocalStep → Shared
  | .load call id => s.hold call (s.loadCopy id)
  | .save call change =>
    match s.copies call with
    | some copy => (s.putBack copy (change.change.run copy.taken)).hold call none
    | none => s

/-- The stores after the next turn of the others, and whether the call may go on. -/
def others : Action Shared Unit := fun s =>
  match s.turns with
  | [] => (.ok (), s)
  | turn :: rest =>
    (match turn.failure with
      | some e => .error e
      | none => .ok (),
      turn.steps.foldl localStep { s with turns := rest })

/-- A call of the synchronizer to the stores, with the others before it. -/
def call {α : Type} (a : Action Memory α) : Action Shared α := do
  others
  Action.on memory (fun memory s => { s with memory }) a

/-- The synchronizer has saved a case once more. -/
def note (c : Case) (s : Shared) : Shared :=
  { s with stamped := fun id => if id = c.id then s.stamped id ++ [c] else s.stamped id }

/-- The stores as a synchronizer meets them. -/
def backend : Backend Shared where
  findCase id := call (Memory.backend.findCase id)
  listCases filter := call (Memory.backend.listCases filter)
  saveCase c changes := do
    call (Memory.backend.saveCase c changes)
    Action.modify (note c)
  findCheckpoint stream := call (Memory.backend.findCheckpoint stream)
  saveCheckpoint stream height := call (Memory.backend.saveCheckpoint stream height)
  deleteCheckpoint stream := call (Memory.backend.deleteCheckpoint stream)
  recordBlock stream block := call (Memory.backend.recordBlock stream block)
  discardRecords stream := call (Memory.backend.discardRecords stream)
  headHeight := call Memory.backend.headHeight
  fetchBlock height := call (Memory.backend.fetchBlock height)

/-- A cycle of the synchronizer, the others having the given turns. -/
def cycle (config : SyncConfig) (turns : List Turn) : Action Shared SyncOutcome := fun s =>
  (backend.syncToHead config).run { s with turns }

/-- What happens to shared stores, step by step. -/
inductive Move where
  | cycle (turns : List Turn)
  | step (step : LocalStep)
  /-- The ledger has become another one, between cycles. -/
  | ledger (chain : Chain)

def move (config : SyncConfig) (s : Shared) : Move → Shared
  | .cycle turns => ((cycle config turns).run s).2
  | .step step => s.localStep step
  | .ledger chain => { s with memory := { s.memory with chain } }

def after (config : SyncConfig) (s : Shared) (moves : List Move) : Shared :=
  moves.foldl (move config) s

/-- A local call that nobody comes between is a change of the stored case. -/
theorem save_load (s : Shared) (n : Nat) (id : CaseId) (change : LocalChange) :
    ((s.localStep (.load n id)).localStep (.save n change)).memory =
      ((Memory.backend.mutate id change.change).run s.memory).2 := by
  cases found : s.memory.repository.find? id with
  | none =>
    have failed := Memory.run_getCase_unknown found
    unfold Backend.mutate
    rw [Action.run_bind_of_error failed]
    simp only [localStep, loadCopy, failed, hold, if_true]
  | some c =>
    have loaded := Memory.run_getCase found
    unfold Backend.mutate
    rw [Action.run_bind_of_ok loaded]
    simp only [localStep, loadCopy, loaded, hold, if_true, putBack]
    obtain ⟨_ | changes, c'⟩ := change.change.run c <;> rfl

end Shared
end CaseRegistry
