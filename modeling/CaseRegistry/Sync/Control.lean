import CaseRegistry.Error

/-!
Running and stopping. Two flags are shared by all who run or stop a synchronizer: one says that a
loop is active, the other that a stop was asked for. `Phase` is where a call of `run` stands, and
`Phase.advance` is its next step; steps of different calls may come in any order, with calls of
`stop` between them. A stop asked for before a loop starts is seen by it at once; a loop takes the
request with it when it ends.
-/
namespace CaseRegistry

structure Control where
  running : Bool
  stopRequested : Bool
deriving DecidableEq

namespace Control

def idle : Control := ⟨false, false⟩

instance : Inhabited Control := ⟨idle⟩

def stop (c : Control) : Control := { c with stopRequested := true }

/-- What a call of `run` meets while another one is active. -/
def alreadyRunning : Error := .internal "synchronizer already running"

end Control

/-- Where a call of `run` stands. -/
inductive Phase where
  /-- About to claim the loop. -/
  | claim
  /-- About to look for a request to stop. -/
  | check
  /-- In a cycle. -/
  | cycle
  /-- Pausing until the next check. -/
  | pause
  /-- About to take the request to stop away. -/
  | clear
  /-- About to give the loop up. -/
  | release
  /-- Over, without ever having had the loop. -/
  | refused
  /-- Over, having had the loop. -/
  | returned
deriving DecidableEq

namespace Phase

/-- The next step of a call, which does not depend on how a cycle ends. -/
def advance (c : Control) : Phase → Control × Phase
  | claim => if c.running then (c, refused) else ({ c with running := true }, check)
  | check => if c.stopRequested then (c, clear) else (c, cycle)
  | cycle => (c, pause)
  | pause => (c, check)
  | clear => ({ c with stopRequested := false }, release)
  | release => ({ c with running := false }, returned)
  | refused => (c, refused)
  | returned => (c, returned)

end Phase
end CaseRegistry
