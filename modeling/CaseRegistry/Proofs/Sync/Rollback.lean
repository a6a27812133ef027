import CaseRegistry.Proofs.Sync.Polling
import CaseRegistry.Proofs.Sync.Recorded

/-! Recovery from a ledger that was rolled back.

A ledger that was followed from its start goes back below the checkpoint. The next cycle
drops the records and the checkpoint and does nothing else (`Reset`). The one after it
follows the ledger from the start again: it brings back the records that the blocks had,
and changes no case, since every stored case has come through these events already
(`Rebuilt`). That it comes through itself is part of what is shown
(`resync_after_rollback`). -/
namespace CaseRegistry

theorem Chain.blockAt_rollback (c : Chain) {head height : Nat} (le : height ≤ head) :
    (c.rollback head).blockAt height = c.blockAt height := by
  unfold blockAt
  rw [block?_rollback, if_pos le]

theorem Chain.events_subset (c : Chain) {n k : Nat} (height : Nat) (le : n ≤ k) :
    c.events height n ⊆ c.events height k := by
  obtain ⟨rest, rfl⟩ := Nat.exists_eq_add_of_le le
  rw [events_add]
  exact List.subset_append_left _ _

namespace Memory

variable {config : SyncConfig} {m m' : Memory} {ledger : Chain} {head : Nat}

/-- The records of the blocks up to a height. -/
def recordsTo (m : Memory) (config : SyncConfig) (height : Nat) : List BlockRecord :=
  (m.journal.records config.stream).filter fun record => 0 < record.height ∧ record.height ≤ height

/-- The stores after a ledger was followed from its start to its head. -/
structure Synced (config : SyncConfig) (m : Memory) : Prop where
  start : m.startOf config = m.chain.head
  took : ∃ r : Repository, r.Took config.nodeOwner (m.chain.events 1 m.chain.head) m.repository
  records : ∀ height ≤ m.chain.head,
    m.recordsTo config height = (List.range' 1 height).map (m.recordAt config.nodeOwner)

/-- What the stores are after a cycle that found the ledger below the checkpoint. -/
structure Reset (config : SyncConfig) (ledger : Chain) (m m' : Memory) : Prop where
  /-- No block was fetched. -/
  chain : m'.chain = { ledger with fetched := m.chain.fetched }
  checkpoint : m'.checkpoints.height? config.stream = none
  records : m'.journal.records config.stream = []
  cases : m'.repository = m.repository

/-- What the stores are after the ledger was followed to a lower head from its start, compared to before. -/
structure Rebuilt (config : SyncConfig) (head : Nat) (m m' : Memory) : Prop where
  fetched : m'.chain.fetched = m.chain.fetched ++ List.range' 1 head
  checkpoint : m'.checkpoints.height? config.stream = if head = 0 then none else some head
  records : m'.journal.records config.stream = m.recordsTo config head
  cases : m'.repository.SameCases m.repository

/-- Blocks recorded from the start on are what the journal has of them. -/
theorem recordsTo_recorded {height n : Nat} (le : height ≤ n)
    (journal : m'.journal = m.recorded config (List.range' 1 n)) :
    m'.recordsTo config height = (List.range' 1 height).map (m.recordAt config.nodeOwner) := by
  have upTo := congrArg (List.filter (0 < ·.height)) (records_upTo m config 0 le)
  have before : ((m.journal.records config.stream).filter (·.height ≤ 0)).filter (0 < ·.height) = [] := by
    rw [List.filter_filter, List.filter_eq_nil_iff]
    intro record _
    rw [← Bool.decide_and, decide_eq_true_eq]
    omega
  have own : ((List.range' 1 height).map (m.recordAt config.nodeOwner)).filter (0 < ·.height) =
      (List.range' 1 height).map (m.recordAt config.nodeOwner) := by
    rw [List.filter_eq_self]
    intro record among
    obtain ⟨other, within, rfl⟩ := List.mem_map.mp among
    rw [List.mem_range'_1] at within
    rw [decide_eq_true_eq, recordAt_height]
    omega
  rw [Nat.zero_add, Nat.zero_add, List.filter_append, before, own, List.filter_filter, ← journal] at upTo
  unfold recordsTo
  rw [← upTo.trans (List.nil_append _)]
  exact List.filter_congr fun record _ => Bool.decide_and _ _

/-- A cycle that comes through from the start leaves the ledger followed. -/
theorem synced_of_syncToHead {outcome : SyncOutcome} (start : m.startOf config = 0)
    (positive : 0 < m.chain.head)
    (ran : (backend.syncToHead config).run m = (.ok outcome, m')) :
    Synced config m' ∧ m'.chain = { m.chain with fetched := m'.chain.fetched } := by
  have below : m.startOf config < m.chain.head := by
    rw [start]
    exact positive
  obtain ⟨_, _, _, r, rfl, rfl, rfl, rfl, follows, _⟩ := syncToHead_ok below ran
  rw [start, Nat.zero_add, Nat.sub_zero] at follows ⊢
  refine ⟨⟨startOf_of_saved rfl,
    ⟨_, follows.took⟩, fun height le => (recordsTo_recorded le rfl).trans ?_⟩, rfl⟩
  have same : (m.past config (List.range' 1 m.chain.head) (List.range' 1 m.chain.head) r).recordAt =
      m.recordAt := recordAt_past follows
  rw [← same]
  rfl

/-- What was followed up to a lower head is followed once more, and no case changes. -/
theorem Synced.again (synced : Synced config m) (le : head ≤ m.chain.head) :
    m.repository.Reaches config.nodeOwner (m.chain.events 1 head) (m.chain.events 1 head) m.repository := by
  obtain ⟨r, took⟩ := synced.took
  exact (took.again (m.chain.events_subset 1 le)).reaches

/-- The cycle after a rollback below the checkpoint. -/
theorem Synced.reset (synced : Synced config m) (below : head < m.chain.head) :
    ∃ m', (backend.syncToHead config).run (m.facing (ledger.rollback head)) =
        (.ok (.reset m.chain.head head), m') ∧ Reset config (ledger.rollback head) m m' := by
  have start : (m.facing (ledger.rollback head)).startOf config = m.chain.head := synced.start
  have ran := syncToHead_above_head (m := m.facing (ledger.rollback head)) (start ▸ below)
  rw [start] at ran
  refine ⟨{ m.facing (ledger.rollback head) with
    journal := m.journal.discard config.stream
    checkpoints := m.checkpoints.delete config.stream }, ran, rfl, ?_, ?_, rfl⟩
  · exact (Checkpoints.height?_delete _ _ _).trans (if_pos rfl)
  · exact (Journal.records_discard _ _ _).trans (if_pos rfl)

namespace Reset

variable {m₁ m₂ : Memory} {result : Except Error SyncOutcome}

theorem startOf_eq (h : Reset config ledger m m₁) : m₁.startOf config = 0 := startOf_of_none h.checkpoint

section

variable (h : Reset config (ledger.rollback head) m m₁) (grown : m.chain.Grows ledger)
  (below : head < m.chain.head)

include h

theorem head_eq : m₁.chain.head = head := congrArg Chain.head h.chain

include grown below

/-- Up to the head that it went back to the ledger has the blocks that it had. -/
theorem blockAt_eq {height : Nat} (le : height ≤ head) : m₁.chain.blockAt height = m.chain.blockAt height := by
  rw [h.chain]
  exact (ledger.blockAt_rollback le).trans (grown.blockAt height (le.trans below.le))

theorem events_eq : m₁.chain.events 1 head = m.chain.events 1 head := by
  have back : m₁.chain.Grows m.chain :=
    ⟨h.head_eq.trans_le below.le, fun height le => (h.blockAt_eq grown below (h.head_eq ▸ le)).symm⟩
  refine (back.events_eq ?_).symm
  rw [h.head_eq]
  omega

theorem recordAt_eq {height : Nat} (le : height ≤ head) :
    m₁.recordAt config.nodeOwner height = m.recordAt config.nodeOwner height := by
  unfold recordAt
  rw [h.blockAt_eq grown below le, h.cases]

/-- The ledger is followed to the head that it went back to. -/
theorem rebuilt (synced : Synced config m) (positive : 0 < head)
    (ran : (backend.syncToHead config).run m₁ = (result, m₂)) :
    (∃ applied skipped, result = .ok (.advanced 0 head applied skipped)) ∧ Rebuilt config head m m₂ := by
  have start := h.startOf_eq
  have below₁ : m₁.startOf config < m₁.chain.head := by
    rw [start, h.head_eq]
    exact positive
  have events : m₁.eventsAhead config = m.chain.events 1 head := by
    unfold eventsAhead
    rw [start, h.head_eq]
    exact h.events_eq grown below
  obtain ⟨done, reaches, came⟩ := syncToHead_reaches below₁.le ran
  rw [events, h.cases] at reaches
  obtain ⟨rfl, same⟩ := reaches.unique (synced.again below.le)
  rw [events] at came
  cases result with
  | error e => cases came.mpr rfl
  | ok outcome =>
    obtain ⟨heights, _, tally, r, hheights, _, _, rfl, _, rfl⟩ := syncToHead_ok below₁ ran
    rw [start, h.head_eq, Nat.sub_zero, Nat.zero_add] at hheights
    subst hheights
    refine ⟨⟨tally.applied, tally.skipped, by rw [start, h.head_eq]⟩, ?_, ?_, ?_, same⟩
    · exact congrArg (·.fetched ++ List.range' 1 head) h.chain
    · rw [Checkpoints.height?_save, if_pos rfl, h.head_eq, if_neg (by omega)]
    · rw [synced.records head below.le]
      show (m₁.recorded config (List.range' 1 head)).records config.stream = _
      rw [records_recorded List.nodup_range', h.records, List.filter_nil, List.nil_append]
      refine List.map_congr_left fun height within => ?_
      rw [List.mem_range'_1] at within
      exact h.recordAt_eq grown below (by omega)

end

/-- Where the ledger went back to its start there is nothing to follow. -/
theorem rebuilt_none (h : Reset config (ledger.rollback 0) m m₁) (synced : Synced config m)
    (ran : (backend.syncToHead config).run m₁ = (result, m₂)) :
    result = .ok (.upToDate 0) ∧ Rebuilt config 0 m m₂ := by
  rw [syncToHead_at_head (h.startOf_eq.trans h.head_eq.symm), h.head_eq] at ran
  obtain ⟨rfl, rfl⟩ := Prod.mk.inj ran
  refine ⟨rfl, ?_, h.checkpoint, ?_, h.cases ▸ .refl _⟩
  · rw [h.chain]
    exact (List.append_nil _).symm
  · rw [h.records, synced.records 0 (Nat.zero_le _)]
    rfl

end Reset
end Memory

namespace Synchronizer

variable {config : SyncConfig} {s : Synchronizer Memory}

/-- Polls that come through from the start leave the ledger followed. -/
theorem synced_of_pollAll {first : Chain} {later : List Chain} (start : s.store.startOf config = 0)
    (grows : (first :: later).IsChain Chain.Grows)
    (ok : ∀ result ∈ (pollAll config (first :: later) s).1, result.isOk)
    (positive : 0 < (later.getLastD first).head) :
    Memory.Synced config (pollAll config (first :: later) s).2.store ∧
      (pollAll config (first :: later) s).2.store.chain =
        { later.getLastD first with fetched := (pollAll config (first :: later) s).2.store.chain.fetched } := by
  have from_start : s.store.startOf config ≤ first.head := by
    rw [start]
    exact Nat.zero_le _
  obtain ⟨outcome, single, ran, same, _⟩ := pollAll_ok from_start grows ok
  obtain ⟨result, store, cycled⟩ : ∃ result store, (Memory.backend.syncToHead config).run
      (s.store.facing (later.getLastD first)) = (result, store) := ⟨_, _, rfl⟩
  rw [run_poll cycled] at ran
  obtain ⟨rfl, rfl⟩ := Prod.mk.inj ran
  rw [same]
  exact Memory.synced_of_syncToHead (m := s.store.facing (later.getLastD first)) start positive cycled

/-- Where a ledger was followed from its start, while it grew, and goes back below the checkpoint then,
the next cycle drops what was on record, and the one after it brings back what concerns the blocks that are
left. No case changes in either. -/
theorem resync_after_rollback (config : SyncConfig) (s : Synchronizer Memory) (first : Chain)
    (later : List Chain) (ledger : Chain) (head : Nat) (start : s.store.startOf config = 0)
    (grows : (first :: later).IsChain Chain.Grows)
    (ok : ∀ result ∈ (pollAll config (first :: later) s).1, result.isOk)
    (grown : (later.getLastD first).Grows ledger) (below : head < (later.getLastD first).head) :
    ∃ reset outcome rebuilt,
      (poll config (ledger.rollback head)).run (pollAll config (first :: later) s).2 =
        (.ok (.reset (later.getLastD first).head head), reset) ∧
      Memory.Reset config (ledger.rollback head) (pollAll config (first :: later) s).2.store reset.store ∧
      (cycle Memory.backend config).run reset = (.ok outcome, rebuilt) ∧
      (head = 0 → outcome = .upToDate 0) ∧
      (0 < head → ∃ applied skipped, outcome = .advanced 0 head applied skipped) ∧
      Memory.Rebuilt config head (pollAll config (first :: later) s).2.store rebuilt.store := by
  obtain ⟨synced, chain⟩ := synced_of_pollAll start grows ok (Nat.zero_lt_of_lt below)
  generalize (pollAll config (first :: later) s).2 = t at synced chain ⊢
  have top : t.store.chain.head = (later.getLastD first).head := by rw [chain]
  have grown' : t.store.chain.Grows ledger := by
    rw [chain]
    exact ⟨grown.head, grown.blockAt⟩
  rw [← top] at below ⊢
  obtain ⟨store₁, ran₁, reset⟩ := synced.reset below
  obtain ⟨result, store₂, ran₂⟩ : ∃ result store,
      (Memory.backend.syncToHead config).run store₁ = (result, store) := ⟨_, _, rfl⟩
  rcases Nat.eq_zero_or_pos head with rfl | positive
  · obtain ⟨rfl, rebuilt⟩ := reset.rebuilt_none synced ran₂
    refine ⟨_, .upToDate 0, _, run_poll ran₁, reset, run_cycle_of ran₂, fun _ => rfl, ?_, rebuilt⟩
    exact fun positive => absurd positive (Nat.lt_irrefl 0)
  · obtain ⟨⟨applied, skipped, rfl⟩, rebuilt⟩ := reset.rebuilt grown' below synced positive ran₂
    refine ⟨_, .advanced 0 head applied skipped, _, run_poll ran₁, reset, run_cycle_of ran₂, ?_,
      fun _ => ⟨applied, skipped, rfl⟩, rebuilt⟩
    exact fun none => absurd none (Nat.ne_of_gt positive)

end Synchronizer

/-! ### The ledger of the sale, gone back to the close -/

theorem Synchronizer.resync_of_sample :
    (∀ result ∈ (pollAll Sample.config (Sample.beforeClose :: Sample.laterStages) (.new Sample.memory)).1,
        result.isOk) ∧
      ∃ reset outcome rebuilt,
        (poll Sample.config ((Sample.laterStages.getLastD Sample.beforeClose).rollback 2)).run
            (pollAll Sample.config (Sample.beforeClose :: Sample.laterStages) (.new Sample.memory)).2 =
          (.ok (.reset 3 2), reset) ∧
        (cycle Memory.backend Sample.config).run reset = (.ok outcome, rebuilt) ∧
        (∃ applied skipped, outcome = .advanced 0 2 applied skipped) ∧
        Memory.Rebuilt Sample.config 2
          (pollAll Sample.config (Sample.beforeClose :: Sample.laterStages) (.new Sample.memory)).2.store
          rebuilt.store := by
  have top : (Sample.laterStages.getLastD Sample.beforeClose).head = 3 := by decide
  have below : 2 < (Sample.laterStages.getLastD Sample.beforeClose).head := by decide
  obtain ⟨reset, outcome, rebuilt, ran₁, _, ran₂, _, advanced, back⟩ :=
    resync_after_rollback Sample.config (.new Sample.memory) Sample.beforeClose Sample.laterStages
      (Sample.laterStages.getLastD Sample.beforeClose) 2 rfl Sample.stages_grow Sample.stages_ok
      (.refl _) below
  rw [top] at ran₁
  exact ⟨Sample.stages_ok, reset, outcome, rebuilt, ran₁, ran₂, advanced (by decide), back⟩

end CaseRegistry
