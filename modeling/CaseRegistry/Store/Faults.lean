import CaseRegistry.Store.Backend

/-!
A backend that fails on demand. Faults are armed ahead of time, each for one kind of call; the
oldest one armed for a call lets as many such calls pass as it is told to, makes the next one fail
and is gone then. A failing call does not reach the backend behind.
-/
namespace CaseRegistry

/-- The kinds of calls to a backend. -/
inductive CallPoint where
  | findCase
  | listCases
  | saveCase
  | findCheckpoint
  | saveCheckpoint
  | deleteCheckpoint
  | recordBlock
  | discardRecords
  | headHeight
  | fetchBlock
deriving DecidableEq

structure Fault where
  point : CallPoint
  /-- How many calls still pass. -/
  skip : Nat
  error : Error
deriving DecidableEq

namespace Fault

/-- What a call meets, and the faults that stay armed. -/
def trip (point : CallPoint) : List Fault → Option Error × List Fault
  | [] => (none, [])
  | fault :: rest =>
    if fault.point = point then
      match fault.skip with
      | 0 => (some fault.error, rest)
      | n + 1 => (none, { fault with skip := n } :: rest)
    else
      let (met, rest) := trip point rest
      (met, fault :: rest)

end Fault

namespace Backend

variable {σ α : Type}

/-- A call that goes through unless a fault is due. -/
def guarded (point : CallPoint) (call : Action σ α) : Action (σ × List Fault) α :=
  fun (s, faults) =>
    match Fault.trip point faults with
    | (some e, faults) => (.error e, (s, faults))
    | (none, faults) =>
      let (result, s) := call s
      (result, (s, faults))

def withFaults (b : Backend σ) : Backend (σ × List Fault) where
  findCase id := guarded .findCase (b.findCase id)
  listCases filter := guarded .listCases (b.listCases filter)
  saveCase c changes := guarded .saveCase (b.saveCase c changes)
  findCheckpoint stream := guarded .findCheckpoint (b.findCheckpoint stream)
  saveCheckpoint stream height := guarded .saveCheckpoint (b.saveCheckpoint stream height)
  deleteCheckpoint stream := guarded .deleteCheckpoint (b.deleteCheckpoint stream)
  recordBlock stream block := guarded .recordBlock (b.recordBlock stream block)
  discardRecords stream := guarded .discardRecords (b.discardRecords stream)
  headHeight := guarded .headHeight b.headHeight
  fetchBlock height := guarded .fetchBlock (b.fetchBlock height)

end Backend
end CaseRegistry
