import CaseRegistry.Proofs.Replay.Summary
import CaseRegistry.Proofs.Sync.Nodes
import CaseRegistry.Proofs.Sync.Polling
import CaseRegistry.Proofs.Sync.Uniform

/-! What a replay depends on.

A cycle knows the ledger by its head and by the blocks that it serves (`Memory.Front`). Both are a
matter of the last block with each height, so the order of the lines that are replayed makes no
difference beyond that. A checkpoint above the ledger makes the first cycle discard everything that
there is of an earlier replay, which is nothing, and the second one begins where a replay without a
checkpoint begins (`replay_of_chain`). -/
namespace CaseRegistry

/-! ### The ledger, as far as it is known -/

/-- What of the stores a cycle depends on. -/
structure Memory.Front where
  repository : Repository
  checkpoints : Checkpoints
  journal : Journal
  head : Nat
  /-- The block that is served at a height. -/
  blockAt : Nat → LedgerBlock

namespace Memory

variable {config : SyncConfig} {m m' : Memory}

def front (m : Memory) : Front :=
  ⟨m.repository, m.checkpoints, m.journal, m.chain.head, m.chain.blockAt⟩

theorem within_front_modify {f : Memory → Memory} {g : Front → Front}
    (seen : ∀ m, (f m).front = g m.front) : (Action.modify f).Within front := by
  intro m m' same
  exact ⟨rfl, by rw [Action.run_modify, Action.run_modify, seen, seen, same]⟩

theorem within_front_fetchBlock (height : Nat) : (backend.fetchBlock height).Within front := by
  intro m m' same
  have head : m.chain.head = m'.chain.head := congrArg Front.head same
  have block : m.chain.blockAt height = m'.chain.blockAt height :=
    congrFun (congrArg Front.blockAt same) height
  rw [run_fetchBlock_eq, run_fetchBlock_eq, head, block]
  split
  · exact ⟨rfl, same⟩
  · exact ⟨rfl, same⟩

theorem within_front_calls :
    Backend.CycleCalls (fun _ a _ => a.Within front) backend backend where
  findCase id _ _ same := ⟨congrArg (fun f : Front => Except.ok (f.repository.find? id)) same, same⟩
  saveCase c changes :=
    within_front_modify (g := fun f => { f with repository := f.repository.save c changes }) fun _ => rfl
  fetchBlock := within_front_fetchBlock
  recordBlock stream record :=
    within_front_modify (g := fun f => { f with journal := f.journal.record stream record }) fun _ => rfl
  findCheckpoint stream _ _ same :=
    ⟨congrArg (fun f : Front => Except.ok (f.checkpoints.height? stream)) same, same⟩
  saveCheckpoint stream height :=
    within_front_modify (g := fun f => { f with checkpoints := f.checkpoints.save stream height })
      fun _ => rfl
  deleteCheckpoint stream :=
    within_front_modify (g := fun f => { f with checkpoints := f.checkpoints.delete stream }) fun _ => rfl
  discardRecords stream :=
    within_front_modify (g := fun f => { f with journal := f.journal.discard stream }) fun _ => rfl
  headHeight _ _ same := ⟨congrArg (fun f : Front => Except.ok f.head) same, same⟩

end Memory

namespace Synchronizer

variable {config : SyncConfig}

/-- What of a synchronizer its next cycle depends on, and what it has counted. -/
def front (s : Synchronizer Memory) : Memory.Front × SyncStats := (s.store.front, s.stats)

theorem within_front_cycle : (cycle Memory.backend config).Within front := by
  intro s s' same
  obtain ⟨store, stats⟩ := Prod.mk.inj same
  obtain ⟨result, after⟩ :=
    Memory.within_front_calls.syncToHead Action.sequential_within config s.store s'.store store
  rw [run_cycle, run_cycle, result, stats]
  exact ⟨rfl, Prod.ext after rfl⟩

end Synchronizer

namespace Replay

variable {config : SyncConfig} {checkpoint : Option Nat} {cases : List Case}
  {blocks other : List LedgerBlock}

theorem within_front_cycles (config : SyncConfig) : (cycles config).Within Synchronizer.front := by
  refine Synchronizer.within_front_cycle.bind fun outcome => ?_
  cases outcome with
  | reset checkpoint head => exact Synchronizer.within_front_cycle
  | upToDate height => exact Action.within_ofExcept (.ok _)
  | advanced before after applied skipped => exact Action.within_ofExcept (.ok _)

theorem run_congr (same : (load cases other config.stream checkpoint).front =
    (load cases blocks config.stream checkpoint).front) :
    run config checkpoint cases other = run config checkpoint cases blocks := by
  unfold run
  generalize load cases other config.stream checkpoint = m,
    load cases blocks config.stream checkpoint = m' at same
  obtain ⟨result, after⟩ := within_front_cycles config (.new m) (.new m') (Prod.ext same rfl)
  generalize (cycles config).run (.new m) = p, (cycles config).run (.new m') = q at result after
  obtain ⟨r, s⟩ := p
  obtain ⟨r', s'⟩ := q
  obtain rfl : r = r' := result
  obtain ⟨store, stats⟩ := Prod.mk.inj after
  have repository : s.store.repository = s'.store.repository := congrArg Memory.Front.repository store
  cases r with
  | error e => rfl
  | ok outcome =>
    show Except.ok (Report.mk outcome s.stats (s.store.repository.list .all)) = _
    rw [stats, repository]

/-! ### Lines and heights -/

/-- The last block with a height. -/
def lastAt (blocks : List LedgerBlock) (height : Nat) : Option LedgerBlock :=
  (blocks.filter (·.height = height)).getLast?

theorem block?_pushAll (blocks : List LedgerBlock) (height : Nat) :
    (blocks.foldl Chain.push .empty).block? height = lastAt blocks height := by
  rw [Chain.block?, Chain.blocks_pushAll, lastAt, ← List.head?_reverse, ← List.filter_reverse,
    List.head?_filter]
  exact congrArg (List.find? _) (List.append_nil _)

theorem head_pushAll_le {c : Chain} {n : Nat} :
    (blocks.foldl Chain.push c).head ≤ n ↔ c.head ≤ n ∧ ∀ b ∈ blocks, b.height ≤ n := by
  induction blocks generalizing c with
  | nil => simp
  | cons b rest ih =>
    rw [List.foldl_cons, ih, List.forall_mem_cons, ← and_assoc]
    exact and_congr_left fun _ => Nat.max_le

/-- Which heights there are, the last blocks with them tell. -/
theorem heights_le_iff {n : Nat} :
    (∀ b ∈ blocks, b.height ≤ n) ↔ ∀ height, lastAt blocks height ≠ none → height ≤ n := by
  simp [lastAt]

theorem head_pushAll_congr (same : ∀ height, lastAt other height = lastAt blocks height) :
    (other.foldl Chain.push .empty).head = (blocks.foldl Chain.push .empty).head := by
  refine eq_of_forall_ge_iff fun n => ?_
  rw [head_pushAll_le, head_pushAll_le, heights_le_iff, heights_le_iff]
  simp only [same]

theorem front_load (same : ∀ height, lastAt other height = lastAt blocks height) (stream : String) :
    (load cases other stream checkpoint).front = (load cases blocks stream checkpoint).front := by
  have blockAt : (other.foldl Chain.push .empty).blockAt = (blocks.foldl Chain.push .empty).blockAt := by
    funext height
    rw [Chain.blockAt, Chain.blockAt, block?_pushAll, block?_pushAll, same]
  unfold Memory.front load
  simp only [head_pushAll_congr same, blockAt]

/-! ### Above the ledger -/

section
variable {s : Synchronizer Memory}

theorem syncToHead_not_reset {m m' : Memory} {outcome : SyncOutcome} (le : m.startOf config ≤ m.chain.head)
    (ran : (Memory.backend.syncToHead config).run m = (.ok outcome, m')) (start head : Nat) :
    outcome ≠ .reset start head := by
  rintro rfl
  rcases Nat.eq_or_lt_of_le le with at_head | below
  · rw [Memory.syncToHead_at_head at_head] at ran
    cases (Prod.mk.inj ran).1
  · obtain ⟨_, _, _, outcome, _⟩ := (Memory.syncToHead_eq_ok below).mp ran
    cases outcome

/-- From a checkpoint that is not above the ledger there is one cycle. -/
theorem run_cycles_of_le (le : s.store.startOf config ≤ s.store.chain.head) :
    (cycles config).run s = (Synchronizer.cycle Memory.backend config).run s := by
  obtain ⟨result, m, ran⟩ :
    ∃ result m, (Memory.backend.syncToHead config).run s.store = (result, m) := ⟨_, _, rfl⟩
  have cycle := Synchronizer.run_cycle_of ran
  cases result with
  | error e => rw [cycles, Action.run_bind_of_error cycle, cycle]
  | ok outcome =>
    rw [cycles, Action.run_bind_of_ok cycle, cycle]
    cases outcome with
    | reset start head => exact absurd rfl (syncToHead_not_reset le ran start head)
    | upToDate height => rfl
    | advanced before after applied skipped => rfl

/-- From a checkpoint above the ledger there are two, the second one without records and checkpoint. -/
theorem run_cycles_of_lt (above : s.store.chain.head < s.store.startOf config) :
    (cycles config).run s = (Synchronizer.cycle Memory.backend config).run
      { s with
        store := { s.store with
          journal := s.store.journal.discard config.stream
          checkpoints := s.store.checkpoints.delete config.stream }
        stats := s.stats.record (.ok (.reset (s.store.startOf config) s.store.chain.head)) } := by
  rw [cycles, Action.run_bind_of_ok (Synchronizer.run_cycle_of (Memory.syncToHead_above_head above))]

end

theorem startOf_load_none : (load cases blocks config.stream none).startOf config = 0 := rfl

theorem run_cycles_none (config : SyncConfig) (cases : List Case) (blocks : List LedgerBlock) :
    (cycles config).run (.new (load cases blocks config.stream none)) =
      (Synchronizer.cycle Memory.backend config).run (.new (load cases blocks config.stream none)) :=
  run_cycles_of_le (Nat.zero_le _)

theorem startOf_load_some (n : Nat) : (load cases blocks config.stream (some n)).startOf config = n :=
  Memory.startOf_of_saved rfl

/-- Nothing is left of an earlier replay but the checkpoint. -/
theorem load_startedOver (stream : String) (n : Nat) :
    { load cases blocks stream (some n) with
      journal := Journal.empty.discard stream
      checkpoints := (Checkpoints.empty.save stream n).delete stream } =
      load cases blocks stream none := by
  have none : (Checkpoints.empty.save stream n).delete stream = .empty := by
    simp [Checkpoints.save, Checkpoints.delete, Checkpoints.empty]
  rw [none]
  rfl

/-- What of a report is printed. -/
def Report.told (r : Report) : SyncOutcome × Totals × List Case := (r.outcome, r.stats.totals, r.cases)

theorem Report.summary_of_told {r r' : Report} (same : r.told = r'.told) : r.summary = r'.summary := by
  obtain ⟨outcome, rest⟩ := Prod.mk.inj same
  obtain ⟨totals, cases⟩ := Prod.mk.inj rest
  obtain ⟨blocks, applied, skipped⟩ := Totals.mk.inj totals
  unfold summary statsSummary
  rw [outcome, cases, blocks, applied, skipped]

theorem map_summary_of_told {x y : Except Error Report} (same : x.map Report.told = y.map Report.told) :
    x.map Report.summary = y.map Report.summary := by
  cases x with
  | error e =>
    cases y with
    | error e' => rw [Except.error.inj same]
    | ok r' => cases same
  | ok r =>
    cases y with
    | error e' => cases same
    | ok r' => exact congrArg Except.ok (Report.summary_of_told (Except.ok.inj same))

/-- A cycle that resets adds nothing to the totals. -/
theorem totals_record_reset (stats : SyncStats) (outcome : SyncOutcome) (start head : Nat) :
    ((stats.record (.ok (.reset start head))).record (.ok outcome)).totals =
      (stats.record (.ok outcome)).totals := by
  cases outcome <;> rfl

/-- A checkpoint above the ledger makes no difference. -/
theorem told_run_of_lt {n : Nat} (above : (load cases blocks config.stream none).chain.head < n) :
    (run config (some n) cases blocks).map Report.told = (run config none cases blocks).map Report.told := by
  have lt : (load cases blocks config.stream (some n)).chain.head <
      (load cases blocks config.stream (some n)).startOf config := by
    rw [startOf_load_some]
    exact above
  obtain ⟨result, m, ran⟩ : ∃ result m,
    (Memory.backend.syncToHead config).run (load cases blocks config.stream none) = (result, m) := ⟨_, _, rfl⟩
  have twice := run_cycles_of_lt (s := .new (load cases blocks config.stream (some n))) lt
  have once := run_cycles_none config cases blocks
  rw [Synchronizer.run_cycle_of ((congrArg _ (load_startedOver config.stream n)).trans ran)] at twice
  rw [Synchronizer.run_cycle_of ran] at once
  unfold run
  rw [twice, once]
  cases result with
  | error e => rfl
  | ok outcome =>
    exact congrArg (fun totals => Except.ok (outcome, totals, m.repository.list .all))
      (totals_record_reset .zero outcome ((load cases blocks config.stream (some n)).startOf config)
        (load cases blocks config.stream (some n)).chain.head)

/-- Where there is no ledger, a checkpoint at 0 makes no difference. -/
theorem told_run_nil_zero :
    (run config (some 0) cases []).map Report.told = (run config none cases []).map Report.told := by
  have at_start := run_cycles_of_le (s := .new (load cases [] config.stream (some 0)))
    (Nat.le_of_eq (startOf_load_some 0))
  have without := run_cycles_none config cases []
  rw [Synchronizer.run_cycle_of (Memory.syncToHead_at_head (startOf_load_some 0))] at at_start
  rw [Synchronizer.run_cycle_of (Memory.syncToHead_at_head startOf_load_none)] at without
  unfold run
  rw [at_start, without]
  rfl

theorem told_run_of_above {n : Nat} (above : ∀ b ∈ blocks, b.height < n) :
    (run config (some n) cases blocks).map Report.told = (run config none cases blocks).map Report.told := by
  cases n with
  | zero =>
    obtain rfl : blocks = [] :=
      List.eq_nil_iff_forall_not_mem.mpr fun b mem => Nat.not_lt_zero _ (above b mem)
    exact told_run_nil_zero
  | succ n =>
    exact told_run_of_lt (Nat.lt_succ_of_le (head_pushAll_le.mpr
      ⟨Nat.zero_le n, fun b mem => Nat.le_of_lt_succ (above b mem)⟩))

theorem outcome_run_not_reset {r : Report} (ran : run config checkpoint cases blocks = .ok r)
    (start head : Nat) : r.outcome ≠ .reset start head := by
  obtain ⟨outcome, s, cycled, rfl⟩ := run_eq_ok.mp ran
  generalize load cases blocks config.stream checkpoint = m at cycled
  rcases Nat.lt_or_ge m.chain.head (m.startOf config) with above | le
  · rw [run_cycles_of_lt (s := .new m) above, Synchronizer.run_cycle] at cycled
    refine syncToHead_not_reset ?_ (Action.eq_of_fst (congrArg Prod.fst cycled)) start head
    rw [Memory.startOf_of_none (by rw [Checkpoints.height?_delete, if_pos rfl])]
    exact Nat.zero_le _
  · rw [run_cycles_of_le (s := .new m) le, Synchronizer.run_cycle] at cycled
    exact syncToHead_not_reset le (Action.eq_of_fst (congrArg Prod.fst cycled)) start head

/-! ### Other orders of lines -/

theorem lastAt_cons (b : LedgerBlock) (rest : List LedgerBlock) (height : Nat) :
    lastAt (b :: rest) height = (lastAt rest height).or (if b.height = height then some b else none) := by
  unfold lastAt
  by_cases here : b.height = height
  · cases last : (rest.filter (·.height = height)).getLast? <;> simp [here, List.getLast?_cons, last]
  · simp [here]

theorem lastAt_swap (before behind : List LedgerBlock) {x y : LedgerBlock} (ne : x.height ≠ y.height)
    (height : Nat) :
    lastAt (before ++ y :: x :: behind) height = lastAt (before ++ x :: y :: behind) height := by
  unfold lastAt
  by_cases hx : x.height = height
  · have hy : y.height ≠ height := fun hy => ne (hx.trans hy.symm)
    simp [hx, hy]
  · simp [hx]

/-- With one block for each height, any order will do. -/
theorem lastAt_perm (perm : other.Perm blocks) (distinct : (blocks.map (·.height)).Nodup) (height : Nat) :
    lastAt other height = lastAt blocks height := by
  induction perm with
  | nil => rfl
  | cons b _ ih => rw [lastAt_cons, lastAt_cons, ih (List.nodup_cons.mp distinct).2]
  | swap x y rest =>
    have ne : x.height ≠ y.height := fun same =>
      (List.nodup_cons.mp distinct).1 (List.mem_cons.mpr (.inl same))
    exact lastAt_swap [] rest ne height
  | trans first second ih ih' =>
    exact (ih ((second.map _).nodup_iff.mpr distinct)).trans (ih' distinct)

/-- What a replay of blocks over cases depends on. -/
structure ChainAlone (config : SyncConfig) (cases : List Case) (blocks : List LedgerBlock) : Prop where
  /-- On the last block with each height, and on nothing else of the lines. -/
  last : ∀ checkpoint other, (∀ height, lastAt other height = lastAt blocks height) →
    run config checkpoint cases other = run config checkpoint cases blocks
  /-- Not on the order of lines of which no two have the same height. -/
  permuted : ∀ checkpoint other, other.Perm blocks → (blocks.map (·.height)).Nodup →
    run config checkpoint cases other = run config checkpoint cases blocks
  /-- Nor on which of two lines with different heights comes first. -/
  swapped : ∀ checkpoint before behind x y, blocks = before ++ x :: y :: behind → x.height ≠ y.height →
    run config checkpoint cases (before ++ y :: x :: behind) = run config checkpoint cases blocks
  /-- What is printed does not depend on a checkpoint above all blocks. -/
  above : ∀ n, (∀ b ∈ blocks, b.height < n) →
    (run config (some n) cases blocks).map Report.told = (run config none cases blocks).map Report.told ∧
      (run config (some n) cases blocks).map Report.summary =
        (run config none cases blocks).map Report.summary
  settled : ∀ checkpoint r, run config checkpoint cases blocks = .ok r →
    ∀ start head, r.outcome ≠ .reset start head

/-- Whatever is replayed over whatever cases, the outcome, the statistics and the cases, or the error, are
a matter of the chain alone. -/
theorem replay_of_chain (config : SyncConfig) (cases : List Case) (blocks : List LedgerBlock) :
    ChainAlone config cases blocks where
  last _ _ same := run_congr (front_load same config.stream)
  permuted _ _ perm distinct := run_congr (front_load (lastAt_perm perm distinct) config.stream)
  swapped _ before behind _ _ split ne :=
    run_congr (front_load (split ▸ lastAt_swap before behind ne) config.stream)
  above _ above := ⟨told_run_of_above above, map_summary_of_told (told_run_of_above above)⟩
  settled _ _ ran := outcome_run_not_reset ran

/-- Without a ledger, a checkpoint is given up and the second cycle has nothing to follow. -/
example : run Sample.config (some 3) [Sample.sale] [] =
    .ok ⟨.upToDate 0, ⟨2, 0, 0, 0, 1, 0, some 0⟩, [Sample.sale]⟩ := by decide +kernel

end Replay
end CaseRegistry
