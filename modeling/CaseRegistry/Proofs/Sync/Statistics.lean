import CaseRegistry.Proofs.Atomic.Stores
import CaseRegistry.Proofs.Sync.Nodes
import CaseRegistry.Proofs.Sync.Uniform

/-! What the statistics of a synchronizer say.

A `Logbook` is a synchronizer with a report of each of its cycles: its result, and the blocks that
its backend served in it (`Backend.served`). Before each cycle anything may have happened to the
stores. Every cycle is counted by how it ended, blocks and operations are counted for cycles that
advanced and for no others, and if nobody else writes the checkpoint, it is at the last height
(`Accounts`, `accounts_after`). That is so over stores in memory (`lastHeight_memory`), also if calls
of them fail (`lastHeight_withFaults`). -/
namespace CaseRegistry

/-! ### Noting what is served -/

namespace Action

variable {σ τ α : Type}

/-- An action on the first part of a state. -/
def beside (a : Action σ α) : Action (σ × τ) α := on Prod.fst (fun s t => (s, t.2)) a

theorem covers_beside (a : Action σ α) : (a.beside : Action (σ × τ) α).Covers a := fun _ _ => rfl

theorem spares_beside (a : Action σ α) : (a.beside : Action (σ × τ) α).Spares Prod.snd := fun _ => rfl

end Action

namespace Backend

variable {σ : Type} {b : Backend σ} {config : SyncConfig}

/-- The backend with a note of the blocks that it serves, each with the height asked for. -/
def noting (b : Backend σ) : Backend (σ × List (Nat × LedgerBlock)) where
  findCase id := (b.findCase id).beside
  listCases filter := (b.listCases filter).beside
  saveCase c changes := (b.saveCase c changes).beside
  findCheckpoint stream := (b.findCheckpoint stream).beside
  saveCheckpoint stream height := (b.saveCheckpoint stream height).beside
  deleteCheckpoint stream := (b.deleteCheckpoint stream).beside
  recordBlock stream record := (b.recordBlock stream record).beside
  discardRecords stream := (b.discardRecords stream).beside
  headHeight := b.headHeight.beside
  fetchBlock height := do
    let block ← (b.fetchBlock height).beside
    Action.modify fun t => (t.1, t.2 ++ [(height, block)])
    return block

theorem covers_noting (b : Backend σ) :
    CycleCalls (fun _ a a' => Action.Covers a a') b.noting b where
  findCase id := Action.covers_beside _
  saveCase c changes := Action.covers_beside _
  findCheckpoint stream := Action.covers_beside _
  saveCheckpoint stream height := Action.covers_beside _
  deleteCheckpoint stream := Action.covers_beside _
  recordBlock stream record := Action.covers_beside _
  discardRecords stream := Action.covers_beside _
  headHeight := Action.covers_beside _
  fetchBlock height s served := by
    unfold noting
    rw [Action.run_bind, Action.beside, Action.run_on]
    obtain ⟨_ | block, s'⟩ := (b.fetchBlock height).run s <;> rfl

/-- The note is of blocks only. -/
theorem spares_noting (b : Backend σ) :
    CaseCalls (fun _ a _ => a.Spares Prod.snd) b.noting b.noting where
  findCase _ := Action.spares_beside _
  saveCase _ _ := Action.spares_beside _

/-- The blocks that a cycle is served, with the heights that it asks for. -/
def served (b : Backend σ) (config : SyncConfig) (store : σ) : List (Nat × LedgerBlock) :=
  ((b.noting.syncToHead config).run (store, [])).2.2

/-- How many operations there are in blocks. -/
def operations (blocks : List (Nat × LedgerBlock)) : Nat := (blocks.flatMap (·.2.operations)).length

theorem operations_append (blocks more : List (Nat × LedgerBlock)) :
    operations (blocks ++ more) = operations blocks + operations more := by
  simp [operations]

/-- Every operation of a block is applied or skipped. -/
theorem dispatchAll_count {on : Timestamp} {tally total : Tally} {ops : List LedgerOperation} {s s' : σ}
    (h : (b.dispatchAll config on tally ops).run s = (.ok total, s')) :
    total.applied + total.skipped = tally.applied + tally.skipped + ops.length := by
  induction ops generalizing tally s with
  | nil =>
    cases h
    rfl
  | cons op rest ih =>
    obtain ⟨result, s₁, _, h⟩ := Action.run_bind_eq_ok.mp h
    rw [ih h, List.length_cons]
    cases result <;> simp only [Tally.count] <;> omega

section
variable {t t' : σ × List (Nat × LedgerBlock)}

theorem fetchBlock_served {height : Nat} {block : LedgerBlock}
    (h : (b.noting.fetchBlock height).run t = (.ok block, t')) : t'.2 = t.2 ++ [(height, block)] := by
  obtain ⟨_, t₁, ran, h⟩ := Action.run_bind_eq_ok.mp h
  cases h
  exact congrArg (· ++ [(height, block)]) ((Action.spares_beside _).run_eq ran)

theorem processBlock_served {height : Nat} {record : BlockRecord}
    (h : (b.noting.processBlock config height).run t = (.ok record, t')) :
    ∃ block, t'.2 = t.2 ++ [(height, block)] ∧
      record.applied + record.skipped = block.operations.length := by
  obtain ⟨block, t₁, fetched, h⟩ := Action.run_bind_eq_ok.mp h
  obtain ⟨tally, t₂, dispatched, h⟩ := Action.run_bind_eq_ok.mp h
  obtain ⟨_, t₃, recorded, h⟩ := Action.run_bind_eq_ok.mp h
  cases h
  have noted := (Action.spares_beside _).run_eq recorded
  rw [((spares_noting b).dispatchAll Action.sequential_spares _ _ _ _).run_eq dispatched,
    fetchBlock_served fetched] at noted
  exact ⟨block, noted, (dispatchAll_count dispatched).trans (Nat.zero_add _)⟩

theorem processFrom_served {tally total : Tally} {height n : Nat}
    (h : (b.noting.processFrom config tally height n).run t = (.ok total, t')) :
    ∃ blocks, t'.2 = t.2 ++ blocks ∧ blocks.map Prod.fst = List.range' height n ∧
      total.applied + total.skipped = tally.applied + tally.skipped + operations blocks := by
  induction n generalizing tally height t with
  | zero =>
    cases h
    exact ⟨[], (List.append_nil _).symm, rfl, rfl⟩
  | succ n ih =>
    obtain ⟨record, t₁, first, h⟩ := Action.run_bind_eq_ok.mp h
    obtain ⟨block, noted, counted⟩ := processBlock_served first
    obtain ⟨blocks, later, heights, total⟩ := ih h
    refine ⟨(height, block) :: blocks, by rw [later, noted, List.append_assoc]; rfl,
      by rw [List.map_cons, heights, List.range'_succ], ?_⟩
    have single : operations [(height, block)] = block.operations.length := by simp [operations]
    rw [total, ← List.singleton_append, operations_append, single, ← counted]
    simp only [Tally.addRecord]
    omega

end

/-- A cycle that advances is served the blocks above the checkpoint up to the head, each once and in
order, and counts their operations. -/
theorem served_of_advanced {store : σ} {before after applied skipped : Nat}
    (h : ((b.syncToHead config).run store).1 = .ok (.advanced before after applied skipped)) :
    (b.served config store).map Prod.fst = List.range' (before + 1) (after - before) ∧
      applied + skipped = operations (b.served config store) := by
  have covered := (covers_noting b).syncToHead Action.sequential_covers config store []
  rw [← covered] at h
  unfold served
  obtain ⟨t', ran⟩ : ∃ t', (b.noting.syncToHead config).run (store, []) = (_, t') := ⟨_, Action.eq_of_fst h⟩
  rw [ran]
  obtain ⟨head, t₁, looked, ran⟩ := Action.run_bind_eq_ok.mp ran
  obtain ⟨found, t₂, read, ran⟩ := Action.run_bind_eq_ok.mp ran
  have untouched := ((Action.spares_beside _).run_eq read).trans ((Action.spares_beside _).run_eq looked)
  replace ran : Action.run (ite _ _ _) t₂ = _ := ran
  split at ran
  · obtain ⟨_, _, _, ran⟩ := Action.run_bind_eq_ok.mp ran
    obtain ⟨_, _, _, ran⟩ := Action.run_bind_eq_ok.mp ran
    cases ran
  · split at ran
    · cases ran
    · obtain ⟨tally, t₃, followed, ran⟩ := Action.run_bind_eq_ok.mp ran
      obtain ⟨_, t₄, saved, ran⟩ := Action.run_bind_eq_ok.mp ran
      cases ran
      obtain ⟨blocks, noted, heights, counted⟩ := processFrom_served followed
      rw [untouched, List.nil_append] at noted
      rw [(Action.spares_beside _).run_eq saved, noted]
      exact ⟨heights, counted.trans (Nat.zero_add _)⟩

/-! ### Who writes the checkpoint -/

/-- The height of a stream's checkpoint, if none but the calls meant for it touch it, and these only
when they come through. -/
structure Keeps (b : Backend σ) (stream : String) (checkpoint : σ → Option Nat) : Prop where
  blocks : BlockCalls (fun _ a _ => a.Spares checkpoint) b b
  headHeight : b.headHeight.Spares checkpoint
  discardRecords : (b.discardRecords stream).Spares checkpoint
  findCheckpoint : (b.findCheckpoint stream).Spares checkpoint
  found : ∀ {s s' found}, (b.findCheckpoint stream).run s = (.ok found, s') → found = checkpoint s
  saved : ∀ {height s s'}, (b.saveCheckpoint stream height).run s = (.ok (), s') →
    checkpoint s' = some height
  notSaved : ∀ height, (b.saveCheckpoint stream height).KeepsOnFailure checkpoint
  deleted : ∀ {s s'}, (b.deleteCheckpoint stream).run s = (.ok (), s') → checkpoint s' = none
  notDeleted : (b.deleteCheckpoint stream).KeepsOnFailure checkpoint

section
variable {checkpoint : σ → Option Nat} (keeps : b.Keeps config.stream checkpoint)
include keeps

/-- A cycle that fails leaves the checkpoint. -/
theorem Keeps.keepsOnFailure : (b.syncToHead config).KeepsOnFailure checkpoint := by
  refine .bind keeps.headHeight fun head => .bind keeps.findCheckpoint fun found => ?_
  show Action.KeepsOnFailure _ (ite _ _ _)
  split
  · exact .bind keeps.discardRecords fun _ => keeps.notDeleted.map _
  · split
    · exact Action.keepsOnFailure_pure _
    · exact .bind (keeps.blocks.processFrom Action.sequential_spares config _ _ _) fun _ =>
        (keeps.notSaved head).map _

/-- After a cycle that comes through the checkpoint is at the height that is noted as the last. -/
theorem Keeps.lastHeight {s s' : σ} {outcome : SyncOutcome}
    (h : (b.syncToHead config).run s = (.ok outcome, s')) (stats : SyncStats) :
    (stats.record (.ok outcome)).lastHeight.getD 0 = (checkpoint s').getD 0 := by
  obtain ⟨head, s₁, looked, h⟩ := Action.run_bind_eq_ok.mp h
  obtain ⟨found, s₂, read, h⟩ := Action.run_bind_eq_ok.mp h
  replace h : Action.run (ite _ _ _) s₂ = _ := h
  split at h
  · obtain ⟨_, s₃, _, h⟩ := Action.run_bind_eq_ok.mp h
    obtain ⟨_, s₄, deleted, h⟩ := Action.run_bind_eq_ok.mp h
    cases h
    rw [keeps.deleted deleted]
    rfl
  · split at h
    · next level =>
      cases h
      rw [keeps.findCheckpoint.run_eq read, ← keeps.found read, level]
      rfl
    · obtain ⟨_, s₃, _, h⟩ := Action.run_bind_eq_ok.mp h
      obtain ⟨_, s₄, saved, h⟩ := Action.run_bind_eq_ok.mp h
      cases h
      rw [keeps.saved saved]
      rfl

end

theorem keeps_memory (stream : String) :
    Memory.backend.Keeps stream fun m => m.checkpoints.height? stream where
  blocks := ⟨⟨fun _ _ => rfl, fun _ _ _ => rfl⟩, fun height m => by
    rw [Memory.run_fetchBlock_eq]; split <;> rfl, fun _ _ _ => rfl⟩
  headHeight _ := rfl
  discardRecords _ := rfl
  findCheckpoint _ := rfl
  found read := by
    cases read
    rfl
  saved {height m _} saved := by
    cases saved
    show (m.checkpoints.save stream height).height? stream = _
    rw [Checkpoints.height?_save, if_pos rfl]
  notSaved _ _ _ _ failed := nomatch failed
  deleted {m _} deleted := by
    cases deleted
    show (m.checkpoints.delete stream).height? stream = _
    rw [Checkpoints.height?_delete, if_pos rfl]
  notDeleted _ _ _ failed := nomatch failed

/-- Calls that fail on demand do not reach the checkpoint. -/
theorem Keeps.withFaults {stream : String} {checkpoint : σ → Option Nat} (h : b.Keeps stream checkpoint) :
    b.withFaults.Keeps stream fun t => checkpoint t.1 where
  blocks := ⟨⟨fun id => always_guarded (h.blocks.findCase id),
    fun c changes => always_guarded (h.blocks.saveCase c changes)⟩,
    fun height => always_guarded (h.blocks.fetchBlock height),
    fun stream record => always_guarded (h.blocks.recordBlock stream record)⟩
  headHeight := always_guarded h.headHeight
  discardRecords := always_guarded h.discardRecords
  findCheckpoint := always_guarded h.findCheckpoint
  found read := h.found (guarded_eq_ok read)
  saved saved := h.saved (guarded_eq_ok saved)
  notSaved height := keepsOnFailure_guarded (h.notSaved height)
  deleted deleted := h.deleted (guarded_eq_ok deleted)
  notDeleted := keepsOnFailure_guarded h.notDeleted

end Backend

/-! ### Reports of cycles -/

/-- How a cycle ended. -/
inductive CycleEnd where
  | advanced
  | upToDate
  | reset
  | failed
deriving DecidableEq

structure CycleReport where
  result : Except Error SyncOutcome
  /-- The blocks that the cycle was served, with the heights that it asked for. -/
  served : List (Nat × LedgerBlock)

namespace CycleReport

def ending (r : CycleReport) : CycleEnd :=
  match r.result with
  | .ok (.advanced ..) => .advanced
  | .ok (.upToDate _) => .upToDate
  | .ok (.reset ..) => .reset
  | .error _ => .failed

/-- If the cycle advanced, it asked for each height from above the checkpoint to the head once and in
order, and counted the operations of the blocks there. -/
def IsFull (r : CycleReport) : Prop :=
  ∀ before after applied skipped, r.result = .ok (.advanced before after applied skipped) →
    r.served.map Prod.fst = List.range' (before + 1) (after - before) ∧
      applied + skipped = Backend.operations r.served

/-- The blocks that the cycle followed for good. -/
def followed (r : CycleReport) : List (Nat × LedgerBlock) := if r.ending = .advanced then r.served else []

variable {r : CycleReport}

theorem ending_eq_failed_iff : r.ending = .failed ↔ ∃ e, r.result = .error e := by
  obtain ⟨_ | _ | _ | _, _⟩ := r <;> simp [ending]

/-! ### One more cycle -/

variable {stats : SyncStats}

theorem resets_record :
    (stats.record r.result).resets = stats.resets + if r.ending = .reset then 1 else 0 := by
  obtain ⟨_ | _ | _ | _, _⟩ := r <;> rfl

theorem failedCycles_record :
    (stats.record r.result).failedCycles = stats.failedCycles + if r.ending = .failed then 1 else 0 := by
  obtain ⟨_ | _ | _ | _, _⟩ := r <;> rfl

theorem IsFull.blocks_record (full : r.IsFull) :
    (stats.record r.result).blocksProcessed = stats.blocksProcessed + r.followed.length := by
  obtain ⟨_ | _ | ⟨before, after, applied, skipped⟩ | _, served⟩ := r
  case ok.advanced =>
    have heights := (full before after applied skipped rfl).1
    have length : served.length = after - before := by
      rw [← List.length_map Prod.fst, heights, List.length_range']
    exact congrArg (stats.blocksProcessed + ·) length.symm
  all_goals rfl

theorem IsFull.operations_record (full : r.IsFull) :
    (stats.record r.result).operationsApplied + (stats.record r.result).operationsSkipped =
      stats.operationsApplied + stats.operationsSkipped + Backend.operations r.followed := by
  obtain ⟨_ | _ | ⟨before, after, applied, skipped⟩ | _, served⟩ := r
  case ok.advanced =>
    have counted : applied + skipped = Backend.operations served :=
      (full before after applied skipped rfl).2
    show stats.operationsApplied + applied + (stats.operationsSkipped + skipped) =
      _ + _ + Backend.operations served
    omega
  all_goals rfl

end CycleReport

/-- Statistics are those of cycles with given reports. -/
structure SyncStats.Counts (stats : SyncStats) (reports : List CycleReport) : Prop where
  cycles : stats.cycles = reports.length
  resets : stats.resets = reports.countP (·.ending = .reset)
  failed : stats.failedCycles = reports.countP (·.ending = .failed)
  blocks : stats.blocksProcessed = (reports.flatMap (·.followed)).length
  operations : stats.operationsApplied + stats.operationsSkipped =
    Backend.operations (reports.flatMap (·.followed))

theorem SyncStats.counts_zero : SyncStats.zero.Counts [] := ⟨rfl, rfl, rfl, rfl, rfl⟩

theorem SyncStats.Counts.record {stats : SyncStats} {reports : List CycleReport} (h : stats.Counts reports)
    {r : CycleReport} (full : r.IsFull) : (stats.record r.result).Counts (reports ++ [r]) where
  cycles := by rw [SyncStats.cycles_record, h.cycles, List.length_append, List.length_singleton]
  resets := by
    rw [CycleReport.resets_record, h.resets, List.countP_append, List.countP_singleton]
    simp only [decide_eq_true_eq]
  failed := by
    rw [CycleReport.failedCycles_record, h.failed, List.countP_append, List.countP_singleton]
    simp only [decide_eq_true_eq]
  blocks := by
    rw [full.blocks_record, h.blocks, List.flatMap_append, List.length_append, List.flatMap_singleton]
  operations := by
    rw [full.operations_record, h.operations, List.flatMap_append, Backend.operations_append,
      List.flatMap_singleton]

/-- Every cycle ends in one of four ways. -/
theorem CycleReport.length_eq_endings (reports : List CycleReport) :
    reports.length = reports.countP (·.ending = .advanced) + reports.countP (·.ending = .upToDate) +
      reports.countP (·.ending = .reset) + reports.countP (·.ending = .failed) := by
  induction reports with
  | nil => rfl
  | cons r rest ih =>
    simp only [List.countP_cons, List.length_cons, ih]
    cases r.ending <;> simp <;> omega

/-! ### Cycles one after the other -/

/-- A synchronizer with the reports of its cycles so far. -/
structure Logbook (σ : Type) where
  node : Synchronizer σ
  reports : List CycleReport

namespace Logbook

variable {σ : Type} (b : Backend σ) (config : SyncConfig)

def start (store : σ) : Logbook σ := ⟨.new store, []⟩

/-- Something happens to the stores, and then a cycle is run. -/
def next (l : Logbook σ) (change : σ → σ) : Logbook σ :=
  let store := change l.node.store
  let (result, node) := (Synchronizer.cycle b config).run { l.node with store }
  ⟨node, l.reports ++ [⟨result, b.served config store⟩]⟩

def after (l : Logbook σ) (changes : List (σ → σ)) : Logbook σ := changes.foldl (next b config) l

/-- What the statistics of a synchronizer say, after cycles before each of which something happened
to the stores. -/
structure Accounts (changes : List (σ → σ)) (l : Logbook σ) : Prop where
  cycles : l.node.stats.cycles = changes.length
  endings : l.node.stats.cycles = l.reports.countP (·.ending = .advanced) +
    l.reports.countP (·.ending = .upToDate) + l.node.stats.resets + l.node.stats.failedCycles
  /-- The statistics count the reports: every cycle that reset or failed, and what those that
  advanced followed. -/
  counts : l.node.stats.Counts l.reports
  full : ∀ r ∈ l.reports, r.IsFull
  /-- If none but the synchronizer writes the checkpoint, then after any cycle that came through the
  last height is where it is, a checkpoint that is not there being at 0. -/
  lastHeight : ∀ checkpoint, b.Keeps config.stream checkpoint →
    (∀ change ∈ changes, ∀ store, checkpoint (change store) = checkpoint store) →
      (∃ r ∈ l.reports, r.ending ≠ .failed) →
        l.node.stats.lastHeight.getD 0 = (checkpoint l.node.store).getD 0

variable {b config} {l : Logbook σ}

theorem next_eq {change : σ → σ} {result : Except Error SyncOutcome} {store : σ}
    (ran : (b.syncToHead config).run (change l.node.store) = (result, store)) :
    l.next b config change = ⟨{ l.node with store, stats := l.node.stats.record result },
      l.reports ++ [⟨result, b.served config (change l.node.store)⟩]⟩ := by
  obtain ⟨rfl, rfl⟩ := Prod.mk.inj ran
  rfl

theorem isFull_served (store : σ) :
    CycleReport.IsFull ⟨((b.syncToHead config).run store).1, b.served config store⟩ :=
  fun _ _ _ _ advanced => Backend.served_of_advanced advanced

theorem accounts_start (store : σ) : Accounts b config [] (start store) :=
  ⟨rfl, rfl, SyncStats.counts_zero, nofun, fun _ _ _ ⟨_, there, _⟩ => nomatch there⟩

theorem Accounts.next {changes : List (σ → σ)} (h : Accounts b config changes l) (change : σ → σ) :
    Accounts b config (changes ++ [change]) (l.next b config change) := by
  have counts : (l.next b config change).node.stats.Counts (l.next b config change).reports :=
    h.counts.record (isFull_served (change l.node.store))
  have cycles : (l.next b config change).node.stats.cycles = (changes ++ [change]).length := by
    rw [List.length_append, ← h.cycles]
    exact SyncStats.cycles_record l.node.stats _
  refine ⟨cycles, ?_, counts, fun r mem => ?_, fun checkpoint keeps unwritten through => ?_⟩
  · rw [counts.resets, counts.failed, counts.cycles, CycleReport.length_eq_endings]
  · rcases List.mem_append.mp mem with old | new
    · exact h.full r old
    · obtain rfl := List.mem_singleton.mp new
      exact isFull_served (change l.node.store)
  · have same : checkpoint (change l.node.store) = checkpoint l.node.store :=
      unwritten change (List.mem_append_right _ List.mem_cons_self) l.node.store
    obtain ⟨result, store, ran⟩ : ∃ result store,
      (b.syncToHead config).run (change l.node.store) = (result, store) := ⟨_, _, rfl⟩
    rw [next_eq ran] at through ⊢
    cases result with
    | ok outcome => exact keeps.lastHeight ran l.node.stats
    | error e =>
      -- neither height has moved, and it was another cycle that came through
      obtain ⟨r, mem, ending⟩ := through
      have old : r ∈ l.reports := (List.mem_append.mp mem).resolve_right fun new =>
        ending (CycleReport.ending_eq_failed_iff.mpr ⟨e, List.mem_singleton.mp new ▸ rfl⟩)
      have before := h.lastHeight checkpoint keeps
        (fun change mem => unwritten change (List.mem_append_left _ mem)) ⟨r, old, ending⟩
      rw [keeps.keepsOnFailure _ e store ran, same]
      exact before

theorem Accounts.after {before : List (σ → σ)} (h : Accounts b config before l) (changes : List (σ → σ)) :
    Accounts b config (before ++ changes) (l.after b config changes) := by
  induction changes generalizing before l with
  | nil =>
    rw [List.append_nil]
    exact h
  | cons change rest ih =>
    rw [← List.singleton_append, ← List.append_assoc]
    exact ih (h.next change)

/-- Whatever happens to the stores between cycles, and however the cycles end, the statistics are those
of the cycles. -/
theorem accounts_after (b : Backend σ) (config : SyncConfig) (store : σ) (changes : List (σ → σ)) :
    Accounts b config changes ((start store).after b config changes) :=
  (accounts_start store).after changes

/-- A checkpoint that cannot be saved makes a cycle fail, the next one follows the same two blocks, and
a ledger that is shorter then makes the last one start over. -/
example : ((start (Sample.memory, [⟨.saveCheckpoint, 0, .caseNotFound Sample.saleId⟩])).after
    Memory.backend.withFaults Sample.config
    [id, id, fun t => ({ t.1 with chain := t.1.chain.rollback 0 }, t.2)]).node.stats =
      ⟨3, 2, 1, 1, 1, 1, none⟩ := by decide +kernel

/-! ### Stores in memory -/

/-- If nobody else writes the checkpoint of the stream, it is at the last height once a cycle came
through, a checkpoint that is not there being at 0. -/
theorem lastHeight_memory (config : SyncConfig) (m : Memory) {changes : List (Memory → Memory)}
    (unwritten : ∀ change ∈ changes, ∀ m : Memory,
      (change m).checkpoints.height? config.stream = m.checkpoints.height? config.stream) :
    let l := (start m).after Memory.backend config changes
    (∃ r ∈ l.reports, r.ending ≠ .failed) →
      l.node.stats.lastHeight.getD 0 = (l.node.store.checkpoints.height? config.stream).getD 0 :=
  ((accounts_start m).after changes).lastHeight _ (Backend.keeps_memory config.stream) unwritten

/-- This is so as well if calls fail on demand, that of saving the checkpoint among them. -/
theorem lastHeight_withFaults (config : SyncConfig) (t : Memory × List Fault)
    {changes : List (Memory × List Fault → Memory × List Fault)}
    (unwritten : ∀ change ∈ changes, ∀ t : Memory × List Fault,
      (change t).1.checkpoints.height? config.stream = t.1.checkpoints.height? config.stream) :
    let l := (start t).after Memory.backend.withFaults config changes
    (∃ r ∈ l.reports, r.ending ≠ .failed) →
      l.node.stats.lastHeight.getD 0 = (l.node.store.1.checkpoints.height? config.stream).getD 0 :=
  ((accounts_start t).after changes).lastHeight _ (Backend.keeps_memory config.stream).withFaults unwritten

end Logbook
end CaseRegistry
