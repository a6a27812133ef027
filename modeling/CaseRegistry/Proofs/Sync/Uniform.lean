import CaseRegistry.Proofs.Sync.Routine
import CaseRegistry.Sync.Run

/-! What the calls of backends have in common, their cycles have in common.

A cycle knows its stores by the calls of its backend alone. So what holds between each call of
one backend and the same call of another, and is kept where one action follows another
(`Action.Sequential`), holds between their cycles (`CycleCalls.syncToHead`). That an action does
the same as another and something besides is such a relation (`Action.Covers`). That it depends
on a view of the stores alone, or leaves a view of them, is one too, with an action and itself
(`Action.Within`, `Action.Spares`). -/
namespace CaseRegistry

namespace Action

variable {σ τ ρ α : Type}

/-- A relation between actions over two states that is kept where one action follows another. -/
structure Sequential (R : (α : Type) → Action σ α → Action τ α → Prop) : Prop where
  ofExcept : ∀ {α : Type} (x : Except Error α), R α (ofExcept x) (ofExcept x)
  bind : ∀ {α β : Type} {x : Action σ α} {y : Action τ α} {f : α → Action σ β} {g : α → Action τ β},
    R α x y → (∀ a, R β (f a) (g a)) → R β (x >>= f) (y >>= g)

theorem Sequential.pure {R : (α : Type) → Action σ α → Action τ α → Prop} (h : Sequential R) (a : α) :
    R α (pure a) (pure a) :=
  h.ofExcept (.ok a)

/-- An action gives what another one gives, and does the same to its part of the state. -/
def Covers (a : Action (σ × τ) α) (a' : Action σ α) : Prop :=
  ∀ s t, ((a.run (s, t)).1, (a.run (s, t)).2.1) = a'.run s

theorem sequential_covers : Sequential fun α (a : Action (σ × τ) α) a' => a.Covers a' where
  ofExcept _ _ _ := rfl
  bind {_ _ x y f g} hx hf s t := by
    have first := hx s t
    rw [run_bind, run_bind, ← first]
    generalize x.run (s, t) = reply
    obtain ⟨_ | a, s', t'⟩ := reply
    · rfl
    · exact hf a s' t'

theorem sequential_within {view : σ → ρ} :
    Sequential fun α (a _ : Action σ α) => a.Within view where
  ofExcept := within_ofExcept
  bind hx hf := hx.bind hf

theorem sequential_spares {view : σ → ρ} :
    Sequential fun α (a _ : Action σ α) => a.Spares view where
  ofExcept _ _ := rfl
  bind hx hf := Always.bind (R := fun s s' => view s' = view s)
    (fun first second => second.trans first) hx hf

theorem Spares.run_eq {view : σ → ρ} {a : Action σ α} (h : a.Spares view) {s s' : σ}
    {result : Except Error α} (ran : a.run s = (result, s')) : view s' = view s := by
  have spared := h s
  rw [ran] at spared
  exact spared

end Action

namespace Backend

variable {σ τ : Type} {R : (α : Type) → Action σ α → Action τ α → Prop} {b : Backend σ} {c : Backend τ}

/-- The calls by which an operation is dispatched are related. -/
structure CaseCalls (R : (α : Type) → Action σ α → Action τ α → Prop) (b : Backend σ)
    (c : Backend τ) : Prop where
  findCase : ∀ id, R _ (b.findCase id) (c.findCase id)
  saveCase : ∀ new changes, R _ (b.saveCase new changes) (c.saveCase new changes)

/-- The calls by which a block is followed are related. -/
structure BlockCalls (R : (α : Type) → Action σ α → Action τ α → Prop) (b : Backend σ)
    (c : Backend τ) : Prop extends CaseCalls R b c where
  fetchBlock : ∀ height, R _ (b.fetchBlock height) (c.fetchBlock height)
  recordBlock : ∀ stream record, R _ (b.recordBlock stream record) (c.recordBlock stream record)

/-- The calls that a cycle makes are related. -/
structure CycleCalls (R : (α : Type) → Action σ α → Action τ α → Prop) (b : Backend σ)
    (c : Backend τ) : Prop extends BlockCalls R b c where
  findCheckpoint : ∀ stream, R _ (b.findCheckpoint stream) (c.findCheckpoint stream)
  saveCheckpoint : ∀ stream height, R _ (b.saveCheckpoint stream height) (c.saveCheckpoint stream height)
  deleteCheckpoint : ∀ stream, R _ (b.deleteCheckpoint stream) (c.deleteCheckpoint stream)
  discardRecords : ∀ stream, R _ (b.discardRecords stream) (c.discardRecords stream)
  headHeight : R _ b.headHeight c.headHeight

variable (sequential : Action.Sequential R)
include sequential

namespace CaseCalls

variable (calls : CaseCalls R b c)
include calls

theorem mutate (id : CaseId) (change : Action Case ChangeSet) :
    R _ (b.mutate id change) (c.mutate id change) := by
  have getCase : R _ (b.getCase id) (c.getCase id) := by
    refine sequential.bind (calls.findCase id) fun found => ?_
    cases found with
    | none => exact sequential.ofExcept _
    | some found => exact sequential.pure found
  refine sequential.bind getCase fun found => ?_
  obtain ⟨e | changes, after⟩ := change.run found
  · exact sequential.ofExcept _
  · exact sequential.bind (calls.saveCase after changes) fun _ => sequential.pure after

theorem stampCase (kind : OperationKind) (op : LedgerOperation) (on : Timestamp) (id : CaseId) :
    R _ (b.stampCase kind op on id) (c.stampCase kind op on id) := by
  refine sequential.bind (sequential.ofExcept _) fun stamp => ?_
  cases stamp with
  | none => exact sequential.pure _
  | some stamp =>
    exact sequential.bind (calls.mutate sequential id _) fun _ => sequential.pure _

theorem dispatchTargeted (node : Identity) (kind : OperationKind) (op : LedgerOperation)
    (on : Timestamp) : R _ (b.dispatchTargeted node kind op on) (c.dispatchTargeted node kind op on) := by
  refine sequential.bind (sequential.ofExcept _) fun id => ?_
  refine sequential.bind (calls.findCase id) fun found => ?_
  cases found with
  | none =>
    show R _ (ite _ _ _) (ite _ _ _)
    split
    · exact sequential.pure _
    · exact sequential.ofExcept _
  | some found =>
    show R _ (ite _ _ _) (ite _ _ _)
    split
    · exact calls.stampCase sequential kind op on id
    · exact sequential.pure _

theorem dispatch (node : Identity) (op : LedgerOperation) (on : Timestamp) :
    R _ (b.dispatch node op on) (c.dispatch node op on) := by
  unfold Backend.dispatch
  split
  · exact sequential.pure _
  · refine sequential.bind (sequential.ofExcept _) fun kind => ?_
    cases kind with
    | none => exact sequential.pure _
    | some kind =>
      show R _ (ite _ _ _) (ite _ _ _)
      split
      · exact sequential.pure _
      · exact calls.dispatchTargeted sequential node kind op on

theorem dispatchAll (config : SyncConfig) (on : Timestamp) (tally : Tally) (ops : List LedgerOperation) :
    R _ (b.dispatchAll config on tally ops) (c.dispatchAll config on tally ops) := by
  induction ops generalizing tally with
  | nil => exact sequential.pure tally
  | cons op rest ih =>
    exact sequential.bind (calls.dispatch sequential config.nodeOwner op on) fun result => ih _

end CaseCalls

theorem BlockCalls.processBlock (calls : BlockCalls R b c) (config : SyncConfig) (height : Nat) :
    R _ (b.processBlock config height) (c.processBlock config height) :=
  sequential.bind (calls.fetchBlock height) fun block =>
    sequential.bind (calls.dispatchAll sequential config block.timestamp .zero block.operations) fun _ =>
      sequential.bind (calls.recordBlock config.stream _) fun _ => sequential.pure _

theorem BlockCalls.processFrom (calls : BlockCalls R b c) (config : SyncConfig) (tally : Tally)
    (height n : Nat) : R _ (b.processFrom config tally height n) (c.processFrom config tally height n) := by
  induction n generalizing tally height with
  | zero => exact sequential.pure tally
  | succ n ih => exact sequential.bind (calls.processBlock sequential config height) fun record => ih _ _

theorem CycleCalls.syncToHead (calls : CycleCalls R b c) (config : SyncConfig) :
    R _ (b.syncToHead config) (c.syncToHead config) := by
  refine sequential.bind calls.headHeight fun head => ?_
  refine sequential.bind (calls.findCheckpoint config.stream) fun found => ?_
  show R _ (ite _ _ _) (ite _ _ _)
  split
  · exact sequential.bind (calls.discardRecords config.stream) fun _ =>
      sequential.bind (calls.deleteCheckpoint config.stream) fun _ => sequential.pure _
  · split
    · exact sequential.pure _
    · exact sequential.bind (calls.processFrom sequential config .zero _ _) fun tally =>
        sequential.bind (calls.saveCheckpoint config.stream head) fun _ => sequential.pure _

end Backend
end CaseRegistry
