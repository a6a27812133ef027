import CaseRegistry.Sync.Control
import CaseRegistry.Sync.Cycle

/-!
A synchronizer: cycles over a backend with statistics and the flags of `Control`, and its loop,
which runs cycles until it is stopped. Who else calls it meanwhile is given as a schedule: for
each cycle the calls that come while it runs. The schedule bounds the loop, which is still running
when no calls are left and none was a stop.
-/
namespace CaseRegistry

/-- The state of a synchronizer and of the backend it works on. -/
structure Synchronizer (σ : Type) where
  store : σ
  stats : SyncStats
  control : Control

/-- A call that comes while a cycle runs. -/
inductive OuterCall where
  | run
  | stop
deriving DecidableEq

namespace Synchronizer

variable {σ α : Type} (b : Backend σ) (config : SyncConfig)

def new (store : σ) : Synchronizer σ := ⟨store, .zero, .idle⟩

/-- An action on the backend alone. -/
def onStore (a : Action σ α) : Action (Synchronizer σ) α :=
  Action.on store (fun store s => { s with store }) a

/-- Runs one cycle and counts it. -/
def cycle : Action (Synchronizer σ) SyncOutcome := fun s =>
  let (result, store) := (b.syncToHead config).run s.store
  (result, { s with store, stats := s.stats.record result })

def stop (s : Synchronizer σ) : Synchronizer σ := { s with control := s.control.stop }

/-- A step of a call of `run`: the step of its phase, and in a cycle the cycle. -/
def advance (phase : Phase) (s : Synchronizer σ) : Phase × Synchronizer σ :=
  let s := if phase = .cycle then ((cycle b config).run s).2 else s
  let (control, next) := phase.advance s.control
  (next, { s with control })

/-- Answers a call that comes while the loop is active. A stop is taken note of, and another run
is refused. -/
def answer (s : Synchronizer σ) : OuterCall → Option Error × Synchronizer σ
  | .stop => (none, s.stop)
  | .run =>
    match Phase.claim.advance s.control with
    | (_, .refused) => (some Control.alreadyRunning, s)
    | (control, _) => (none, { s with control })

/-- Answers calls one after the other, gathering the refusals. -/
def answerAll (s : Synchronizer σ) : List OuterCall → List Error × Synchronizer σ
  | [] => ([], s)
  | call :: rest =>
    let (refusal, s) := s.answer call
    let (refusals, s) := answerAll s rest
    (refusal.toList ++ refusals, s)

/-- Ends a loop that has seen a request to stop. -/
def leave (s : Synchronizer σ) : Synchronizer σ :=
  let (_, s) := advance b config .clear s
  (advance b config .release s).2

/-- The loop from its check on. Gives the refusals of calls that came meanwhile, and whether the
loop has ended. -/
def loop (s : Synchronizer σ) : List (List OuterCall) → (List Error × Bool) × Synchronizer σ
  | [] =>
    match advance b config .check s with
    | (.cycle, s) => (([], false), s)
    | (_, s) => (([], true), leave b config s)
  | calls :: rest =>
    match advance b config .check s with
    | (.cycle, s) =>
      let (refusals, s) := s.answerAll calls
      let (_, s) := advance b config .cycle s
      let (_, s) := advance b config .pause s
      let ((later, ended), s) := loop s rest
      ((refusals ++ later, ended), s)
    | (_, s) => (([], true), leave b config s)

/-- Runs cycles until stopped. -/
def run (schedule : List (List OuterCall)) : Action (Synchronizer σ) (List Error × Bool) := fun s =>
  match advance b config .claim s with
  | (.check, s) =>
    let (result, s) := loop b config s schedule
    (.ok result, s)
  | (_, s) => (.error Control.alreadyRunning, s)

end Synchronizer
end CaseRegistry
