import CaseRegistry.Proofs.Sync.Retry

/-! Which blocks the journal has on record.

Blocks are pushed and rolled back, cases are made, and cycles run in between. Up to the
checkpoint the journal has every height once, in order (`Memory.RecordedTo`). Every step
keeps that (`recordedTo_step`), failed cycles included, which record blocks above the
checkpoint. Where the ledger is rolled back to below such blocks, but not below the
checkpoint, no cycle takes notice, and their records stay. So the heights on record are
those up to the checkpoint exactly if none above the head was there when the cycle began
(`recorded_after_cycle`); `lost_block_stays` is a run where one was. -/
namespace CaseRegistry

namespace Memory

variable {config : SyncConfig} {m m' : Memory}

/-- The heights on record for a stream, in the order of recording. -/
def heights (m : Memory) (config : SyncConfig) : List Nat :=
  (m.journal.records config.stream).map BlockRecord.height

@[simp] theorem recordAt_height (m : Memory) (node : Identity) (height : Nat) :
    (m.recordAt node height).height = height := rfl

/-! ### A stretch of blocks that is recorded -/

/-- Up to a height within the stretch there are the records from before it and then its own. -/
theorem records_upTo (m : Memory) (config : SyncConfig) (start : Nat) {j n : Nat} (le : j ≤ n) :
    ((m.recorded config (List.range' (start + 1) n)).records config.stream).filter
        (·.height ≤ start + j) =
      (m.journal.records config.stream).filter (·.height ≤ start) ++
        (List.range' (start + 1) j).map (m.recordAt config.nodeOwner) := by
  obtain ⟨rest, rfl⟩ := Nat.exists_eq_add_of_le le
  have before : ((m.journal.records config.stream).filter
      (·.height ∉ List.range' (start + 1) (j + rest))).filter (·.height ≤ start + j) =
        (m.journal.records config.stream).filter (·.height ≤ start) := by
    rw [List.filter_filter]
    refine List.filter_congr fun record _ => ?_
    rw [← Bool.decide_and, decide_eq_decide, List.mem_range'_1]
    omega
  have own : ((List.range' (start + 1) j).map (m.recordAt config.nodeOwner)).filter
      (·.height ≤ start + j) = (List.range' (start + 1) j).map (m.recordAt config.nodeOwner) := by
    rw [List.filter_eq_self]
    intro record among
    obtain ⟨height, within, rfl⟩ := List.mem_map.mp among
    rw [List.mem_range'_1] at within
    rw [decide_eq_true_eq, recordAt_height]
    omega
  have later : ((List.range' (start + 1 + j) rest).map (m.recordAt config.nodeOwner)).filter
      (·.height ≤ start + j) = [] := by
    rw [List.filter_eq_nil_iff]
    intro record among
    obtain ⟨height, within, rfl⟩ := List.mem_map.mp among
    rw [List.mem_range'_1] at within
    rw [decide_eq_true_eq, recordAt_height]
    omega
  rw [records_recorded List.nodup_range', List.filter_append, before, ← List.range'_append_1,
    List.map_append, List.filter_append, own, later, List.append_nil]

/-- Above the stretch there are the records from before it. -/
theorem records_above (m : Memory) (config : SyncConfig) (start n : Nat) :
    ((m.recorded config (List.range' (start + 1) n)).records config.stream).filter
        (start + n < ·.height) =
      (m.journal.records config.stream).filter (start + n < ·.height) := by
  have own : ((List.range' (start + 1) n).map (m.recordAt config.nodeOwner)).filter
      (start + n < ·.height) = [] := by
    rw [List.filter_eq_nil_iff]
    intro record among
    obtain ⟨height, within, rfl⟩ := List.mem_map.mp among
    rw [List.mem_range'_1] at within
    rw [decide_eq_true_eq, recordAt_height]
    omega
  rw [records_recorded List.nodup_range', List.filter_append, own, List.append_nil, List.filter_filter]
  refine List.filter_congr fun record _ => ?_
  rw [← Bool.decide_and, decide_eq_decide, List.mem_range'_1]
  omega

theorem heights_recorded {heights : List Nat} (nodup : heights.Nodup) :
    ((m.recorded config heights).records config.stream).map BlockRecord.height =
      (m.heights config).filter (· ∉ heights) ++ heights := by
  rw [records_recorded nodup, List.map_append, Memory.heights, List.filter_map, List.map_map]
  congr 1
  exact List.map_id _

/-! ### Up to the checkpoint -/

/-- Up to a height the journal has all heights, in order; and it has none twice. -/
structure RecordedTo (config : SyncConfig) (height : Nat) (m : Memory) : Prop where
  upTo : (m.heights config).filter (· ≤ height) = List.range' 1 height
  nodup : (m.heights config).Nodup

namespace RecordedTo

variable {start j n height : Nat}

/-- The heights on record are those up to the given one exactly if none lies above it. -/
theorem heights_eq_iff (h : m.RecordedTo config height) :
    m.heights config = List.range' 1 height ↔ ∀ other ∈ m.heights config, other ≤ height := by
  rw [← h.upTo, eq_comm, List.filter_eq_self]
  simp only [decide_eq_true_eq]

theorem congr (h : m.RecordedTo config height) (journal : m'.journal = m.journal) :
    m'.RecordedTo config height := by
  have same : m'.heights config = m.heights config := by
    unfold heights
    rw [journal]
  exact ⟨same ▸ h.upTo, same ▸ h.nodup⟩

theorem of_empty (none : m.journal.records config.stream = []) : m.RecordedTo config 0 := by
  have none : m.heights config = [] := congrArg (List.map BlockRecord.height) none
  exact ⟨by rw [none]; rfl, by rw [none]; exact List.nodup_nil⟩

/-- Blocks that are recorded behind a height leave the journal whole up to any height among them. -/
theorem recorded (h : m.RecordedTo config start) (le : j ≤ n)
    (journal : m'.journal = m.recorded config (List.range' (start + 1) n)) :
    m'.RecordedTo config (start + j) where
  upTo := by
    have before : (m.heights config).filter (· ≤ start) = _ := List.filter_map
    have own : ((List.range' (start + 1) j).map (m.recordAt config.nodeOwner)).map BlockRecord.height =
        List.range' (start + 1) j := by
      rw [List.map_map]
      exact List.map_id _
    have upTo := congrArg (List.map BlockRecord.height) (records_upTo m config start le)
    rw [← journal, List.map_append, own] at upTo
    rw [heights, List.filter_map]
    refine upTo.trans ?_
    rw [← List.range'_append_1, Nat.add_comm 1 start, ← h.upTo, before]
    rfl
  nodup := by
    unfold heights
    rw [journal, heights_recorded List.nodup_range', List.nodup_append]
    refine ⟨h.nodup.filter _, List.nodup_range', ?_⟩
    rintro height before _ own rfl
    exact of_decide_eq_true (List.mem_filter.mp before).2 own

end RecordedTo

/-- Above the blocks that are recorded the journal is what it was. -/
theorem heights_above {start n top : Nat} (sum : start + n = top)
    (journal : m'.journal = m.recorded config (List.range' (start + 1) n)) :
    (m'.heights config).filter (top < ·) = (m.heights config).filter (top < ·) := by
  subst sum
  have above := congrArg (List.map BlockRecord.height) (records_above m config start n)
  rw [← journal] at above
  rw [heights, heights, List.filter_map, List.filter_map]
  exact above

/-! ### A cycle -/

/-- A cycle leaves the journal whole up to the checkpoint, whatever comes of it. -/
theorem syncToHead_recordedTo {result : Except Error SyncOutcome}
    (h : m.RecordedTo config (m.startOf config))
    (ran : (backend.syncToHead config).run m = (result, m')) : m'.RecordedTo config (m'.startOf config) := by
  rcases Nat.lt_trichotomy (m.startOf config) m.chain.head with below | at_head | above
  · cases result with
    | ok outcome =>
      obtain ⟨_, _, _, r, rfl, rfl, rfl, rfl, _⟩ := syncToHead_ok below ran
      have next : Memory.startOf { m.past config (m.heightsAhead config) (m.heightsAhead config) r with
          checkpoints := m.checkpoints.save config.stream m.chain.head } config =
            m.startOf config + (m.chain.head - m.startOf config) :=
        (startOf_of_saved rfl).trans (Nat.add_sub_cancel' below.le).symm
      exact next ▸ h.recorded (Nat.le_refl _) rfl
    | error e =>
      -- the blocks on record lie above the checkpoint, which has not moved
      obtain ⟨k, _, _, _, _, r, _, rfl, _⟩ := syncToHead_error below ran
      exact h.recorded (Nat.zero_le k) rfl
  · rw [syncToHead_at_head at_head] at ran
    obtain ⟨_, rfl⟩ := Prod.mk.inj ran
    exact h
  · rw [syncToHead_above_head above] at ran
    obtain ⟨_, rfl⟩ := Prod.mk.inj ran
    have start : Memory.startOf { m with
        journal := m.journal.discard config.stream
        checkpoints := m.checkpoints.delete config.stream } config = 0 :=
      startOf_of_none ((Checkpoints.height?_delete _ _ _).trans (if_pos rfl))
    rw [start]
    exact .of_empty ((Journal.records_discard _ _ _).trans (if_pos rfl))

/-- A cycle that brings the checkpoint to the head, or finds it there, leaves the records above it. -/
theorem syncToHead_above {outcome : SyncOutcome} (through : ∀ checkpoint head, outcome ≠ .reset checkpoint head)
    (ran : (backend.syncToHead config).run m = (.ok outcome, m')) :
    m'.startOf config = m'.chain.head ∧
      (m'.heights config).filter (m'.chain.head < ·) = (m.heights config).filter (m'.chain.head < ·) := by
  rcases Nat.lt_trichotomy (m.startOf config) m.chain.head with below | at_head | above
  · obtain ⟨_, _, _, r, rfl, rfl, rfl, rfl, _⟩ := syncToHead_ok below ran
    have sum : m.startOf config + (m.chain.head - m.startOf config) = m.chain.head :=
      Nat.add_sub_cancel' below.le
    exact ⟨startOf_of_saved rfl, heights_above sum rfl⟩
  · rw [syncToHead_at_head at_head] at ran
    obtain ⟨_, rfl⟩ := Prod.mk.inj ran
    exact ⟨at_head, rfl⟩
  · rw [syncToHead_above_head above] at ran
    obtain ⟨reset, _⟩ := Prod.mk.inj ran
    exact absurd (Except.ok.inj reset).symm (through _ _)

theorem createCase_kept (c : Case) (m : Memory) :
    ((backend.createCase c).run m).2.journal = m.journal ∧
      ((backend.createCase c).run m).2.checkpoints = m.checkpoints := by
  unfold Backend.createCase
  rw [Action.run_bind_of_ok (run_findCase c.id m), Action.run_bind, Action.run_ofExcept]
  cases ensure (m.repository.find? c.id = none) (.invalidCase (.taken c.id)) <;> exact ⟨rfl, rfl⟩

end Memory

/-! ### Runs -/

/-- The ledger gains a block or is rolled back, a case is made, or a cycle runs. -/
inductive SyncStep where
  | push (block : LedgerBlock)
  | rollback (height : Nat)
  | create (c : Case)
  | cycle

namespace Synchronizer

variable {config : SyncConfig} {s : Synchronizer Memory}

/-- The synchronizer and its stores after a step, which may have failed. -/
def step (config : SyncConfig) (s : Synchronizer Memory) : SyncStep → Synchronizer Memory
  | .push block => { s with store.chain := s.store.chain.push block }
  | .rollback height => { s with store.chain := s.store.chain.rollback height }
  | .create c => ((onStore (Memory.backend.createCase c)).run s).2
  | .cycle => ((cycle Memory.backend config).run s).2

def after (config : SyncConfig) (s : Synchronizer Memory) (steps : List SyncStep) : Synchronizer Memory :=
  steps.foldl (step config) s

theorem recordedTo_step (step : SyncStep) (h : s.store.RecordedTo config (s.store.startOf config)) :
    (s.step config step).store.RecordedTo config ((s.step config step).store.startOf config) := by
  cases step with
  | push block => exact h.congr rfl
  | rollback height => exact h.congr rfl
  | create c =>
    obtain ⟨journal, checkpoints⟩ := Memory.createCase_kept c s.store
    have start : (s.step config (.create c)).store.startOf config = s.store.startOf config :=
      congrArg (fun checkpoints : Checkpoints => (checkpoints.height? config.stream).getD 0) checkpoints
    rw [start]
    exact h.congr journal
  | cycle =>
    obtain ⟨result, store, ran⟩ : ∃ result store,
        (Memory.backend.syncToHead config).run s.store = (result, store) := ⟨_, _, rfl⟩
    rw [step, run_cycle, ran]
    exact Memory.syncToHead_recordedTo h ran

theorem recordedTo_after (steps : List SyncStep) (h : s.store.RecordedTo config (s.store.startOf config)) :
    (s.after config steps).store.RecordedTo config ((s.after config steps).store.startOf config) := by
  induction steps generalizing s with
  | nil => exact h
  | cons step rest ih => exact ih (recordedTo_step step h)

/-- After a cycle that brings the checkpoint to the head, or finds it there, the journal has all heights
up to it, in order and each once. What it has above was there before the cycle; so the heights on record
are just those up to the checkpoint if and only if none above was there. -/
theorem recorded_after_cycle (config : SyncConfig) (s : Synchronizer Memory) (steps : List SyncStep)
    (fresh : s.store.checkpoints.height? config.stream = none)
    (empty : s.store.journal.records config.stream = []) {outcome : SyncOutcome}
    {s' : Synchronizer Memory} (through : ∀ checkpoint head, outcome ≠ .reset checkpoint head)
    (ran : (cycle Memory.backend config).run (s.after config steps) = (.ok outcome, s')) :
    s'.store.startOf config = s'.store.chain.head ∧
      s'.store.RecordedTo config s'.store.chain.head ∧
      (s'.store.heights config).filter (s'.store.chain.head < ·) =
        ((s.after config steps).store.heights config).filter (s'.store.chain.head < ·) ∧
      (s'.store.heights config = List.range' 1 s'.store.chain.head ↔
        ∀ height ∈ (s.after config steps).store.heights config, height ≤ s'.store.chain.head) := by
  have start : s.store.startOf config = 0 := Memory.startOf_of_none fresh
  have whole : s.store.RecordedTo config (s.store.startOf config) := by
    rw [start]
    exact .of_empty empty
  have before := recordedTo_after steps whole
  obtain ⟨result, store, cycled⟩ : ∃ result store,
      (Memory.backend.syncToHead config).run (s.after config steps).store = (result, store) := ⟨_, _, rfl⟩
  rw [run_cycle, cycled] at ran
  obtain ⟨rfl, rfl⟩ := Prod.mk.inj ran
  obtain ⟨at_head, above⟩ := Memory.syncToHead_above through cycled
  have whole := Memory.syncToHead_recordedTo before cycled
  rw [at_head] at whole
  refine ⟨at_head, whole, above, whole.heights_eq_iff.trans ?_⟩
  have none (heights : List Nat) : (∀ height ∈ heights, height ≤ store.chain.head) ↔
      heights.filter (store.chain.head < ·) = [] := by
    rw [List.filter_eq_nil_iff]
    simp only [decide_eq_true_eq, Nat.not_lt]
  exact (none _).trans ((Iff.of_eq (congrArg (· = []) above)).trans (none _).symm)

end Synchronizer

/-! ### A close that is met before its case is known -/

namespace Sample

/-- The cycle fails at height 2, with height 1 on record, and the sale is made then. -/
def lateSale : List SyncStep := [.push ⟨2, .epoch, [closing]⟩, .cycle, .create sale]

/-- The cycle fails at height 3, with heights 1 and 2 on record, and the ledger goes back to 1. -/
def lostBlock : List SyncStep := [.push ⟨3, .epoch, [closing]⟩, .cycle, .rollback 1]

end Sample

namespace Synchronizer

theorem recorded_lateSale :
    ∃ s', (cycle Memory.backend Sample.config).run
        ((Synchronizer.new Memory.empty).after Sample.config Sample.lateSale) =
          (.ok (.advanced 0 2 1 0), s') ∧
      s'.store.heights Sample.config = List.range' 1 s'.store.chain.head := by
  have answer : ((cycle Memory.backend Sample.config).run
      ((Synchronizer.new Memory.empty).after Sample.config Sample.lateSale)).1 =
        .ok (.advanced 0 2 1 0) := by decide +kernel
  have before : ((Synchronizer.new Memory.empty).after Sample.config Sample.lateSale).store.heights
      Sample.config = [1] := by decide +kernel
  have head : ((cycle Memory.backend Sample.config).run
      ((Synchronizer.new Memory.empty).after Sample.config Sample.lateSale)).2.store.chain.head = 2 := by
    decide +kernel
  have ran := Action.eq_of_fst answer
  have through : ∀ checkpoint head, SyncOutcome.advanced 0 2 1 0 ≠ .reset checkpoint head := by
    intro checkpoint head same
    cases same
  have recorded :=
    recorded_after_cycle Sample.config (.new Memory.empty) Sample.lateSale rfl rfl through ran
  refine ⟨_, ran, recorded.2.2.2.mpr ?_⟩
  rw [before, head]
  decide

/-- The block at height 2 is still on record, though the ledger has it no more. -/
theorem lost_block_stays :
    ((cycle Memory.backend Sample.config).run
        ((Synchronizer.new Memory.empty).after Sample.config Sample.lostBlock)).1 =
      .ok (.advanced 0 1 0 0) ∧
    ((cycle Memory.backend Sample.config).run
        ((Synchronizer.new Memory.empty).after Sample.config Sample.lostBlock)).2.store.heights
      Sample.config = [2, 1] := by
  decide +kernel

end Synchronizer
end CaseRegistry
