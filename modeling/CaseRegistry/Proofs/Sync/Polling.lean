import CaseRegistry.Proofs.Sync.Reaching
import Mathlib.Data.List.Basic

/-! When a node polls makes no difference.

A ledger is polled while it grows, with one cycle at each stage it is met at. The stored
cases come to be what a single cycle at the last stage makes of them, whether cycles fail
or not. If none fails, which is so exactly if the single one does not, all stores come to
be the same, down to the saves and the heights fetched, and so do the totals
(`poll_any_time`). For the cases the reason is how far the events are followed, which
repetition does not change (`cycle_cycle_sameCases`). For the stores it is that following
blocks ignores the rest of the ledger and the checkpoint (`processFrom_ignores`), so that
two stretches are one (`cycle_cycle_ok`). -/
namespace CaseRegistry

namespace Action

variable {σ α β : Type} {holds : σ → Prop} {change : σ → σ}

/-- An action keeps a property of states, and runs alike on a state that has it and on the changed
state, leaving the change where it was. -/
def Ignores (holds : σ → Prop) (change : σ → σ) (a : Action σ α) : Prop :=
  ∀ s, holds s → holds (a.run s).2 ∧ a.run (change s) = ((a.run s).1, change (a.run s).2)

theorem ignores_pure (a : α) : (pure a : Action σ α).Ignores holds change := fun _ h => ⟨h, rfl⟩

theorem Ignores.bind {x : Action σ α} {f : α → Action σ β} (hx : x.Ignores holds change)
    (hf : ∀ a, (f a).Ignores holds change) : (x >>= f).Ignores holds change := by
  intro s h
  obtain ⟨kept, changed⟩ := hx s h
  rw [run_bind, run_bind, changed]
  obtain ⟨_ | a, s', ran⟩ : ∃ result s', x.run s = (result, s') := ⟨_, _, rfl⟩
  · rw [ran] at kept ⊢
    exact ⟨kept, rfl⟩
  · rw [ran] at kept ⊢
    exact hf a s' kept

theorem Ignores.run {a : Action σ α} (ignores : a.Ignores holds change) {s s' : σ}
    {result : Except Error α} (h : holds s) (ran : a.run s = (result, s')) :
    a.run (change s) = (result, change s') := by
  rw [(ignores s h).2, ran]

end Action

namespace Chain

/-- A ledger has become another one: the head has not gone back, and no block up to it changed. -/
structure Grows (c d : Chain) : Prop where
  head : c.head ≤ d.head
  blockAt : ∀ height ≤ c.head, d.blockAt height = c.blockAt height

variable {c d : Chain}

theorem Grows.refl (c : Chain) : c.Grows c := ⟨Nat.le_refl _, fun _ _ => rfl⟩

theorem Grows.trans {e : Chain} (h : c.Grows d) (h' : d.Grows e) : c.Grows e where
  head := h.head.trans h'.head
  blockAt height le := (h'.blockAt height (le.trans h.head)).trans (h.blockAt height le)

theorem Grows.events_eq (h : c.Grows d) {height n : Nat} (le : height + n ≤ c.head + 1) :
    d.events height n = c.events height n := by
  unfold events
  refine List.flatMap_congr fun other within => ?_
  rw [List.mem_range'_1] at within
  rw [h.blockAt other (by omega)]

/-- A ledger grows by moving its head up, and by blocks above the head. -/
theorem grows_setHead {height : Nat} (le : c.head ≤ height) : c.Grows (c.setHead height) :=
  ⟨le, fun _ _ => rfl⟩

theorem grows_push {block : LedgerBlock} (above : c.head < block.height) : c.Grows (c.push block) where
  head := Nat.le_max_left ..
  blockAt height le := by
    unfold Chain.blockAt
    rw [block?_push, if_neg (by omega)]

theorem grows_getLastD {later : List Chain} (h : (c :: later).IsChain Grows) :
    c.Grows (later.getLastD c) := by
  induction later generalizing c with
  | nil => exact .refl c
  | cons d later ih =>
    obtain ⟨first, rest⟩ := List.isChain_cons_cons.mp h
    rw [List.getLastD_cons]
    exact first.trans (ih rest)

end Chain

/-! ### Totals -/

/-- What cycles that came through have done together. -/
structure Totals where
  blocks : Nat
  applied : Nat
  skipped : Nat
deriving DecidableEq

def Totals.add (t u : Totals) : Totals := ⟨t.blocks + u.blocks, t.applied + u.applied, t.skipped + u.skipped⟩

theorem Totals.zero_add (t : Totals) : Totals.add ⟨0, 0, 0⟩ t = t := by
  simp only [add, Nat.zero_add]

theorem Totals.add_assoc (t u v : Totals) : (t.add u).add v = t.add (u.add v) := by
  simp only [add, Nat.add_assoc]

def SyncStats.totals (s : SyncStats) : Totals := ⟨s.blocksProcessed, s.operationsApplied, s.operationsSkipped⟩

/-- What a cycle adds to the totals. -/
def SyncOutcome.totals : SyncOutcome → Totals
  | .upToDate _ => ⟨0, 0, 0⟩
  | .advanced before after applied skipped => ⟨after - before, applied, skipped⟩
  | .reset _ _ => ⟨0, 0, 0⟩

theorem SyncStats.totals_record (s : SyncStats) (outcome : SyncOutcome) :
    (s.record (.ok outcome)).totals = s.totals.add outcome.totals := by
  cases outcome <;> rfl

/-- Only the last height is kept. -/
theorem Checkpoints.save_save (c : Checkpoints) (stream : String) (height height' : Nat) :
    (c.save stream height).save stream height' = c.save stream height' := by
  simp [save, delete, List.filter_filter]

/-! ### Stretches of blocks -/

namespace Backend

variable {σ : Type} (b : Backend σ) (config : SyncConfig)

/-- A tally that is there before is added. -/
theorem processFrom_tally (tally : Tally) (height n : Nat) :
    b.processFrom config tally height n =
      (b.processFrom config .zero height n >>= fun total => pure (tally.add total)) := by
  induction n generalizing tally height with
  | zero => simp only [processFrom, pure_bind, Tally.add, Tally.zero, Nat.add_zero]
  | succ n ih =>
    simp only [processFrom, bind_assoc]
    congr 1
    funext record
    rw [ih, ih (Tally.zero.addRecord record), bind_assoc]
    simp only [pure_bind, Tally.add, Tally.addRecord, Tally.zero, Nat.zero_add, Nat.add_assoc]

/-- A stretch of blocks is followed in two parts. -/
theorem processFrom_add (tally : Tally) (height k n : Nat) :
    b.processFrom config tally height (k + n) =
      (b.processFrom config tally height k >>= fun total => b.processFrom config total (height + k) n) := by
  induction k generalizing tally height with
  | zero => rw [Nat.zero_add, Nat.add_zero, processFrom, pure_bind]
  | succ k ih =>
    rw [Nat.add_right_comm, processFrom, processFrom, bind_assoc]
    congr 1
    funext record
    rw [ih, Nat.add_right_comm height 1 k, Nat.add_assoc height k 1]

end Backend

namespace Memory

variable {config : SyncConfig} {m m₁ m₂ : Memory} {c d : Chain} {k : Checkpoints}

/-- The stores in front of another ledger and with other checkpoints. Which heights have been fetched
stays noted. -/
def within (m : Memory) (ledger : Chain) (checkpoints : Checkpoints) : Memory :=
  { m with checkpoints, chain := { ledger with fetched := m.chain.fetched } }

/-- The stores in front of another ledger. -/
def facing (m : Memory) (ledger : Chain) : Memory := m.within ledger m.checkpoints

theorem dispatch_ignores (node : Identity) (op : LedgerOperation) (on : Timestamp) :
    (backend.dispatch node op on).Ignores (c.Grows ·.chain) (·.within d k) := by
  intro m grows
  rw [run_dispatch, run_dispatch]
  show _ ∧ (m.repository.ruling node op on).settle _ = _
  cases m.repository.ruling node op on <;> exact ⟨grows, rfl⟩

theorem dispatchAll_ignores (on : Timestamp) (tally : Tally) (ops : List LedgerOperation) :
    (backend.dispatchAll config on tally ops).Ignores (c.Grows ·.chain) (·.within d k) := by
  induction ops generalizing tally with
  | nil => exact Action.ignores_pure tally
  | cons op rest ih => exact (dispatch_ignores _ op on).bind fun result => ih (tally.count result)

theorem fetchBlock_ignores (config : SyncConfig) (grows : c.Grows d) {height : Nat} (le : height ≤ c.head) :
    (backend.fetchBlock height).Ignores (c.Grows ·.chain) (·.within d k) := by
  intro m grows'
  rw [run_fetchBlock config (le.trans grows'.head),
    run_fetchBlock config (m := m.within d k) (le.trans grows.head)]
  have same : (m.within d k).chain.blockAt height = m.chain.blockAt height :=
    (grows.blockAt height le).trans (grows'.blockAt height le).symm
  rw [same]
  exact ⟨⟨grows'.head, grows'.blockAt⟩, rfl⟩

theorem processBlock_ignores (grows : c.Grows d) {height : Nat} (le : height ≤ c.head) :
    (backend.processBlock config height).Ignores (c.Grows ·.chain) (·.within d k) := by
  refine (fetchBlock_ignores config grows le).bind fun block =>
    (dispatchAll_ignores _ _ _).bind fun tally => Action.Ignores.bind ?_ fun _ => Action.ignores_pure _
  exact fun m grows' => ⟨grows', rfl⟩

/-- Following blocks up to the head of a ledger, one cannot tell what that ledger has grown to, nor what
the checkpoints are. -/
theorem processFrom_ignores (grows : c.Grows d) (tally : Tally) {height n : Nat}
    (le : height + n ≤ c.head + 1) :
    (backend.processFrom config tally height n).Ignores (c.Grows ·.chain) (·.within d k) := by
  induction n generalizing tally height with
  | zero => exact Action.ignores_pure tally
  | succ n ih =>
    exact (processBlock_ignores grows (by omega)).bind fun record => ih (tally.addRecord record) (by omega)

/-! ### Two cycles -/

/-- A cycle moves the start of the next one up to the head, unless it fails. -/
theorem startOf_syncToHead {result : Except Error SyncOutcome} (le : m.startOf config ≤ m.chain.head)
    (ran : (backend.syncToHead config).run m = (result, m₁)) :
    m₁.startOf config = if result.isOk then m.chain.head else m.startOf config := by
  rcases Nat.eq_or_lt_of_le le with at_head | below
  · rw [syncToHead_at_head at_head] at ran
    obtain ⟨rfl, rfl⟩ := Prod.mk.inj ran
    exact at_head
  · cases result with
    | ok outcome =>
      obtain ⟨total, m', _, _, rfl⟩ := (syncToHead_eq_ok below).mp ran
      exact startOf_of_saved rfl
    | error e =>
      obtain ⟨_, _, _, _, _, _, _, rfl, _⟩ := syncToHead_error below ran
      rfl

theorem eventsAhead_facing (m : Memory) (ledger : Chain) :
    (m.facing ledger).eventsAhead config =
      ledger.events (m.startOf config + 1) (ledger.head - m.startOf config) := rfl

/-- More events lie ahead when the ledger has grown. -/
theorem eventsAhead_grown (grows : c.Grows d) (start : m.startOf config ≤ c.head) :
    (m.facing d).eventsAhead config =
      (m.facing c).eventsAhead config ++ d.events (c.head + 1) (d.head - c.head) := by
  have heads := grows.head
  have sum : d.head - m.startOf config = (c.head - m.startOf config) + (d.head - c.head) := by omega
  have next : m.startOf config + 1 + (c.head - m.startOf config) = c.head + 1 := by omega
  rw [eventsAhead_facing, eventsAhead_facing, sum, Chain.events_add, grows.events_eq (by omega), next]

/-- A cycle, and then one when the ledger has grown, leave the cases as that last one does on its own, and
come through both exactly if it does. -/
theorem cycle_cycle_sameCases {result₁ result₂ result : Except Error SyncOutcome} {single : Memory}
    (grows : c.Grows d) (start : m.startOf config ≤ c.head)
    (first : (backend.syncToHead config).run (m.facing c) = (result₁, m₁))
    (second : (backend.syncToHead config).run (m₁.facing d) = (result₂, m₂))
    (alone : (backend.syncToHead config).run (m.facing d) = (result, single)) :
    m₂.repository.SameCases single.repository ∧ (result₁.isOk ∧ result₂.isOk ↔ result.isOk) := by
  obtain ⟨done₁, reaches₁, came₁⟩ := syncToHead_reaches (m := m.facing c) start first
  obtain ⟨done, reaches, came⟩ := syncToHead_reaches (m := m.facing d) (start.trans grows.head) alone
  have start' := startOf_syncToHead (m := m.facing c) start first
  have le : m₁.startOf config ≤ d.head := by
    rw [start']
    split
    · exact grows.head
    · exact start.trans grows.head
  obtain ⟨done₂, reaches₂, came₂⟩ := syncToHead_reaches (m := m₁.facing d) le second
  rw [eventsAhead_grown grows start] at reaches came
  by_cases ok : result₁.isOk
  · -- the second cycle goes on where the first one ended
    rw [if_pos ok] at start'
    have rest : (m₁.facing d).eventsAhead config = d.events (c.head + 1) (d.head - c.head) := by
      rw [eventsAhead_facing, start']
      rfl
    rw [rest] at reaches₂ came₂
    rw [came₁.mp ok] at reaches₁
    obtain ⟨rfl, same⟩ := (Repository.Reaches.trans reaches₁.took reaches₂).unique reaches
    refine ⟨same, ?_⟩
    rw [came, came₂, List.append_cancel_left_eq]
    exact and_iff_right ok
  · -- the second cycle begins where the first one began
    rw [if_neg ok] at start'
    have again : (m₁.facing d).eventsAhead config = (m.facing d).eventsAhead config := by
      rw [eventsAhead_facing, eventsAhead_facing, start']
      rfl
    rw [again, eventsAhead_grown grows start] at reaches₂
    refine ⟨((reaches₁.again reaches₂).unique reaches).2, fun both => absurd both.1 ok, fun through => ?_⟩
    have took := reaches.took
    rw [came.mp through] at took
    exact absurd (came₁.mpr (reaches₁.complete took (List.prefix_append _ _))) ok

/-- A stretch of blocks, and one behind it when the ledger has grown, are one stretch of what it has grown
to. -/
theorem processFrom_grown {height n n' : Nat} {total total' : Tally} {m' m'' : Memory} (grows : c.Grows d)
    (le : height + n ≤ c.head + 1) (le' : height + n + n' ≤ d.head + 1)
    (first : (backend.processFrom config .zero height n).run (m.facing c) = (.ok total, m'))
    (second : (backend.processFrom config .zero (height + n) n').run (m'.within d k) = (.ok total', m'')) :
    (backend.processFrom config .zero height (n + n')).run (m.facing d) =
      (.ok (total.add total'), m''.within d m.checkpoints) := by
  have first' : (backend.processFrom config .zero height n).run (m.facing d) =
      (.ok total, m'.within d m.checkpoints) :=
    (processFrom_ignores (k := m.checkpoints) grows .zero le).run
      (s := m.facing c) ⟨Nat.le_refl _, fun _ _ => rfl⟩ first
  have second' : (backend.processFrom config .zero (height + n) n').run (m'.within d m.checkpoints) =
      (.ok total', m''.within d m.checkpoints) :=
    (processFrom_ignores (k := m.checkpoints) (.refl d) .zero le').run
      (s := m'.within d k) ⟨Nat.le_refl _, fun _ _ => rfl⟩ second
  rw [Backend.processFrom_add, Action.run_bind_of_ok first', Backend.processFrom_tally,
    Action.run_bind_of_ok second']
  rfl

/-- Following blocks leaves the checkpoints, and the ledger but for which heights were fetched. -/
theorem processFrom_kept {tally total : Tally} {height n : Nat} (le : height + n ≤ m.chain.head + 1)
    (ran : (backend.processFrom config tally height n).run m = (.ok total, m₁)) :
    m₁.checkpoints = m.checkpoints ∧ m₁.chain = { m.chain with fetched := m₁.chain.fetched } := by
  obtain ⟨_, rfl, _⟩ := processFrom_ok le ran
  exact ⟨rfl, rfl⟩

/-- A cycle that comes through from a checkpoint that was moved before follows the blocks ahead, which
may be none, and moves it again. -/
theorem syncToHead_moved {outcome : SyncOutcome} {height : Nat} (le : height ≤ m.chain.head)
    (moved : m.checkpoints = k.save config.stream height)
    (ran : (backend.syncToHead config).run m = (.ok outcome, m₁)) :
    ∃ total m', (backend.processFrom config .zero (height + 1) (m.chain.head - height)).run m =
        (.ok total, m') ∧
      outcome.totals = ⟨m.chain.head - height, total.applied, total.skipped⟩ ∧
      m₁ = m'.within m.chain (k.save config.stream m.chain.head) := by
  have start : m.startOf config = height := startOf_of_saved moved
  rcases Nat.eq_or_lt_of_le le with at_head | below
  · rw [syncToHead_at_head (start.trans at_head)] at ran
    obtain ⟨ho, rfl⟩ := Prod.mk.inj ran
    rw [← Except.ok.inj ho, at_head, Nat.sub_self]
    refine ⟨.zero, m, rfl, rfl, ?_⟩
    rw [at_head] at moved
    rw [← moved]
    rfl
  · rw [← start] at below
    obtain ⟨total, m', ran', rfl, rfl⟩ := (syncToHead_eq_ok below).mp ran
    obtain ⟨checkpoints, chain⟩ := processFrom_kept (by omega) ran'
    rw [start] at ran'
    refine ⟨total, m', ran', by rw [start]; rfl, ?_⟩
    unfold within
    rw [checkpoints, moved, Checkpoints.save_save, ← chain]

/-- Where a cycle comes through, and then one when the ledger has grown, that last one comes through on
its own, and the stores are the same to the last. -/
theorem cycle_cycle_ok {outcome₁ outcome₂ : SyncOutcome} (grows : c.Grows d)
    (start : m.startOf config ≤ c.head)
    (first : (backend.syncToHead config).run (m.facing c) = (.ok outcome₁, m₁))
    (second : (backend.syncToHead config).run (m₁.facing d) = (.ok outcome₂, m₂)) :
    ∃ outcome, (backend.syncToHead config).run (m.facing d) = (.ok outcome, m₂) ∧
      outcome.totals = outcome₁.totals.add outcome₂.totals := by
  rcases Nat.eq_or_lt_of_le start with at_head | below
  · rw [syncToHead_at_head (m := m.facing c) at_head] at first
    obtain ⟨ho, rfl⟩ := Prod.mk.inj first
    refine ⟨outcome₂, second, ?_⟩
    rw [← Except.ok.inj ho]
    exact (Totals.zero_add _).symm
  · have le : m.startOf config + 1 + (c.head - m.startOf config) ≤ c.head + 1 := by omega
    obtain ⟨total, m', ran, rfl, rfl⟩ := (syncToHead_eq_ok (m := m.facing c) below).mp first
    have kept : m'.checkpoints = m.checkpoints := (processFrom_kept (m := m.facing c) le ran).1
    obtain ⟨total', m'', ran', totals, rfl⟩ := syncToHead_moved (k := m.checkpoints) grows.head
      (congrArg (Checkpoints.save · config.stream c.head) kept) second
    have heads := grows.head
    have sum : d.head - m.startOf config = (c.head - m.startOf config) + (d.head - c.head) := by omega
    have next : m.startOf config + 1 + (c.head - m.startOf config) = c.head + 1 := by omega
    have alone : (backend.processFrom config .zero (m.startOf config + 1)
        (d.head - m.startOf config)).run (m.facing d) =
          (.ok (total.add total'), m''.within d m.checkpoints) := by
      rw [sum]
      refine processFrom_grown (k := m'.checkpoints.save config.stream c.head) grows le (by omega) ran ?_
      rw [next]
      exact ran'
    refine ⟨_, (syncToHead_eq_ok (m := m.facing d) (below.trans_le heads)).mpr
      ⟨_, _, alone, rfl, rfl⟩, ?_⟩
    rw [totals]
    show Totals.mk (d.head - m.startOf config) _ _ = _
    rw [sum]
    rfl

end Memory

/-! ### Polls -/

namespace Synchronizer

variable (config : SyncConfig)

/-- A cycle in front of the ledger as it has become. -/
def poll (ledger : Chain) : Action (Synchronizer Memory) SyncOutcome := fun s =>
  (cycle Memory.backend config).run { s with store := s.store.facing ledger }

/-- Polls the ledger at stages of it one after the other, failed cycles included. -/
def pollAll : List Chain → Synchronizer Memory → List (Except Error SyncOutcome) × Synchronizer Memory
  | [], s => ([], s)
  | ledger :: later, s =>
    let (result, s) := (poll config ledger).run s
    let (results, s) := pollAll later s
    (result :: results, s)

variable {config} {s : Synchronizer Memory}

theorem run_cycle_of {result : Except Error SyncOutcome} {store : Memory}
    (ran : (Memory.backend.syncToHead config).run s.store = (result, store)) :
    (cycle Memory.backend config).run s = (result, { s with store, stats := s.stats.record result }) := by
  rw [run_cycle, ran]

theorem run_poll {ledger : Chain} {result : Except Error SyncOutcome} {store : Memory}
    (ran : (Memory.backend.syncToHead config).run (s.store.facing ledger) = (result, store)) :
    (poll config ledger).run s = (result, { s with store, stats := s.stats.record result }) :=
  run_cycle_of (s := { s with store := s.store.facing ledger }) ran

theorem pollAll_cons {ledger : Chain} {later : List Chain} {result : Except Error SyncOutcome}
    {s' : Synchronizer Memory} (ran : (poll config ledger).run s = (result, s')) :
    pollAll config (ledger :: later) s =
      (result :: (pollAll config later s').1, (pollAll config later s').2) := by
  rw [pollAll, ran]

/-- The next cycle begins no higher than the head that was polled. -/
theorem startOf_poll_le {ledger : Chain} {result : Except Error SyncOutcome} {store : Memory}
    (start : s.store.startOf config ≤ ledger.head)
    (ran : (Memory.backend.syncToHead config).run (s.store.facing ledger) = (result, store)) :
    store.startOf config ≤ ledger.head := by
  rw [Memory.startOf_syncToHead (m := s.store.facing ledger) start ran]
  split
  · exact Nat.le_refl _
  · exact start

/-- Polls leave the cases as a single one at the last stage does, and all come through exactly if it
does. -/
theorem pollAll_sameCases {first : Chain} {later : List Chain}
    (start : s.store.startOf config ≤ first.head) (grows : (first :: later).IsChain Chain.Grows) :
    (pollAll config (first :: later) s).2.store.repository.SameCases
        ((poll config (later.getLastD first)).run s).2.store.repository ∧
      ((∀ result ∈ (pollAll config (first :: later) s).1, result.isOk) ↔
        ((poll config (later.getLastD first)).run s).1.isOk) := by
  induction later generalizing first s with
  | nil =>
    obtain ⟨result, s', ran⟩ : ∃ result s', (poll config first).run s = (result, s') := ⟨_, _, rfl⟩
    rw [pollAll_cons ran, List.getLastD_nil, ran]
    exact ⟨.refl _, by simp [pollAll]⟩
  | cons next later ih =>
    obtain ⟨grown, rest⟩ := List.isChain_cons_cons.mp grows
    rw [List.getLastD_cons]
    obtain ⟨result₁, store₁, ran₁⟩ : ∃ result store,
        (Memory.backend.syncToHead config).run (s.store.facing first) = (result, store) := ⟨_, _, rfl⟩
    obtain ⟨result₂, store₂, ran₂⟩ : ∃ result store, (Memory.backend.syncToHead config).run
        (store₁.facing (later.getLastD next)) = (result, store) := ⟨_, _, rfl⟩
    obtain ⟨result, store, ran⟩ : ∃ result store, (Memory.backend.syncToHead config).run
        (s.store.facing (later.getLastD next)) = (result, store) := ⟨_, _, rfl⟩
    have start' := (startOf_poll_le start ran₁).trans grown.head
    obtain ⟨cases, through⟩ :=
      ih (s := { s with store := store₁, stats := s.stats.record result₁ }) start' rest
    rw [run_poll ran₂] at cases through
    obtain ⟨cases', through'⟩ :=
      Memory.cycle_cycle_sameCases (grown.trans (Chain.grows_getLastD rest)) start ran₁ ran₂ ran
    rw [pollAll_cons (run_poll ran₁), run_poll ran]
    refine ⟨cases.trans cases', ?_⟩
    rw [List.forall_mem_cons, through]
    exact through'

/-- Polls that all come through leave the stores as a single one at the last stage does, which comes
through as well. -/
theorem pollAll_ok {first : Chain} {later : List Chain}
    (start : s.store.startOf config ≤ first.head) (grows : (first :: later).IsChain Chain.Grows)
    (ok : ∀ result ∈ (pollAll config (first :: later) s).1, result.isOk) :
    ∃ outcome single, (poll config (later.getLastD first)).run s = (.ok outcome, single) ∧
      (pollAll config (first :: later) s).2.store = single.store ∧
      (pollAll config (first :: later) s).2.stats.totals = single.stats.totals := by
  induction later generalizing first s with
  | nil =>
    obtain ⟨result, s', ran⟩ : ∃ result s', (poll config first).run s = (result, s') := ⟨_, _, rfl⟩
    rw [pollAll_cons ran] at ok ⊢
    cases result with
    | error e => cases ok _ List.mem_cons_self
    | ok outcome => exact ⟨outcome, s', ran, rfl, rfl⟩
  | cons next later ih =>
    obtain ⟨grown, rest⟩ := List.isChain_cons_cons.mp grows
    rw [List.getLastD_cons]
    obtain ⟨result, store₁, ran₁⟩ : ∃ result store,
        (Memory.backend.syncToHead config).run (s.store.facing first) = (result, store) := ⟨_, _, rfl⟩
    rw [pollAll_cons (run_poll ran₁)] at ok ⊢
    cases result with
    | error e => cases ok _ List.mem_cons_self
    | ok outcome₁ =>
      have start' := (startOf_poll_le start ran₁).trans grown.head
      obtain ⟨outcome₂, single, ran₂, same, totals⟩ :=
        ih (s := { s with store := store₁, stats := s.stats.record (.ok outcome₁) }) start' rest
          fun result h => ok result (List.mem_cons_of_mem _ h)
      obtain ⟨result, store₂, cycled⟩ : ∃ result store, (Memory.backend.syncToHead config).run
          (store₁.facing (later.getLastD next)) = (result, store) := ⟨_, _, rfl⟩
      rw [run_poll cycled] at ran₂
      obtain ⟨rfl, rfl⟩ := Prod.mk.inj ran₂
      obtain ⟨outcome, ran, sum⟩ :=
        Memory.cycle_cycle_ok (grown.trans (Chain.grows_getLastD rest)) start ran₁ cycled
      refine ⟨outcome, _, run_poll ran, same, totals.trans ?_⟩
      show ((s.stats.record _).record _).totals = (s.stats.record _).totals
      rw [SyncStats.totals_record, SyncStats.totals_record, SyncStats.totals_record, sum,
        Totals.add_assoc]

/-- Polls of a growing ledger leave the cases as a single one at its last stage does, and they all come
through exactly if it does. The stores are the same then, with what was fetched and what was saved, and so
are the totals. -/
theorem poll_any_time (config : SyncConfig) (s : Synchronizer Memory) (first : Chain) (later : List Chain)
    (start : s.store.startOf config ≤ first.head) (grows : (first :: later).IsChain Chain.Grows) :
    let polled := pollAll config (first :: later) s
    let single := (poll config (later.getLastD first)).run s
    polled.2.store.repository.SameCases single.2.store.repository ∧
      ((∀ result ∈ polled.1, result.isOk) ↔ single.1.isOk) ∧
      ((∀ result ∈ polled.1, result.isOk) →
        polled.2.store = single.2.store ∧ polled.2.stats.totals = single.2.stats.totals) := by
  intro polled single
  obtain ⟨cases, through⟩ := pollAll_sameCases (s := s) start grows
  refine ⟨cases, through, fun ok => ?_⟩
  obtain ⟨outcome, s', ran, store, totals⟩ := pollAll_ok start grows ok
  show _ = ((poll config (later.getLastD first)).run s).2.store ∧
    _ = ((poll config (later.getLastD first)).run s).2.stats.totals
  rw [ran]
  exact ⟨store, totals⟩

end Synchronizer

/-! ### A ledger met at three stages -/

namespace Sample

/-- The ledger of the sale before its close. -/
def beforeClose : Chain := memory.chain.setHead 1

/-- The ledger at the close, and with a block behind it. -/
def laterStages : List Chain := [memory.chain, memory.chain.push ⟨3, .epoch, [closing]⟩]

theorem stages_grow : (beforeClose :: laterStages).IsChain Chain.Grows := by
  have up : beforeClose.Grows memory.chain := Chain.grows_setHead (by decide)
  exact List.isChain_cons_cons.mpr
    ⟨up, List.isChain_cons_cons.mpr ⟨Chain.grows_push (by decide), .singleton _⟩⟩

theorem stages_polled :
    (Synchronizer.pollAll config (beforeClose :: laterStages) (.new memory)).1 =
      [.ok (.advanced 0 1 0 0), .ok (.advanced 1 2 1 1), .ok (.advanced 2 3 1 0)] := by
  decide +kernel

theorem stages_ok :
    ∀ result ∈ (Synchronizer.pollAll config (beforeClose :: laterStages) (.new memory)).1, result.isOk := by
  rw [stages_polled]
  simp [Except.isOk, Except.toBool]

end Sample

theorem Synchronizer.polls_of_sample :
    Sample.memory.startOf Sample.config ≤ Sample.beforeClose.head ∧
      (Sample.beforeClose :: Sample.laterStages).IsChain Chain.Grows ∧
      (∀ result ∈ (pollAll Sample.config (Sample.beforeClose :: Sample.laterStages) (.new Sample.memory)).1,
        result.isOk) ∧
      (pollAll Sample.config (Sample.beforeClose :: Sample.laterStages) (.new Sample.memory)).2.store =
        ((poll Sample.config (Sample.laterStages.getLastD Sample.beforeClose)).run
          (.new Sample.memory)).2.store := by
  have start : Sample.memory.startOf Sample.config ≤ Sample.beforeClose.head := by decide
  have same := poll_any_time Sample.config (.new Sample.memory) Sample.beforeClose
    Sample.laterStages start Sample.stages_grow
  exact ⟨start, Sample.stages_grow, Sample.stages_ok, (same.2.2 Sample.stages_ok).1⟩

end CaseRegistry
