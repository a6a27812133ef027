import CaseRegistry.Proofs.Sync.Following
import CaseRegistry.Sync.Run
import Mathlib.Data.List.Induction

/-! What a cycle below the head does to stores in memory.

A cycle that begins below the head of the ledger is a fold over the events between
(`cycle_below_head`). If it comes through, every stored case has followed all of the
events, all blocks are fetched and recorded in order, and the checkpoint is the head
(`Advanced`). If it does not, an operation was refused; the cases have followed the
events before it, the blocks before its own are recorded, and the checkpoint is where it
was (`Aborted`). Operations, blocks and ranges of blocks are taken up in turn, each with
what it does when it comes through and when it does not. -/
namespace CaseRegistry

/-- Both counts of two tallies together. -/
def Tally.add (t u : Tally) : Tally := ⟨t.applied + u.applied, t.skipped + u.skipped⟩

theorem Tally.zero_add (t : Tally) : Tally.zero.add t = t := by
  simp only [add, zero, Nat.zero_add]

theorem Tally.add_assoc (t u v : Tally) : (t.add u).add v = t.add (u.add v) := by
  simp only [add, Nat.add_assoc]

/-- How many events stamp a stored case of the node, and how many are passed over. -/
def Repository.tally (r : Repository) (node : Identity) (events : List LedgerEvent) : Tally :=
  ⟨events.countP (r.heeds node), events.countP (!r.heeds node ·)⟩

theorem Repository.tally_total (r : Repository) (node : Identity) (events : List LedgerEvent) :
    (r.tally node events).applied + (r.tally node events).skipped = events.length := by
  rw [List.length_eq_countP_add_countP (r.heeds node)]
  simp [tally]

theorem Repository.tally_append (r : Repository) (node : Identity) (events later : List LedgerEvent) :
    r.tally node (events ++ later) = (r.tally node events).add (r.tally node later) := by
  simp only [tally, Tally.add, List.countP_append]

theorem Repository.tally_congr {r r' : Repository} (h : r.ownerOf? = r'.ownerOf?) :
    r.tally = r'.tally := by
  unfold tally
  rw [heeds_congr h]

theorem Repository.Follows.tally_eq {node : Identity} {events : List LedgerEvent} {r r' : Repository}
    (h : r.Follows node events r') : r'.tally = r.tally :=
  tally_congr h.ownerOf?_eq

theorem Chain.events_succ (c : Chain) (height n : Nat) :
    c.events height (n + 1) = (c.blockAt height).events ++ c.events (height + 1) n := by
  simp only [Chain.events, List.range'_succ, List.flatMap_cons]

/-- However a cycle ended, it is counted. -/
theorem SyncStats.cycles_record (stats : SyncStats) (result : Except Error SyncOutcome) :
    (stats.record result).cycles = stats.cycles + 1 := by
  obtain _ | _ | _ | _ := result <;> rfl

theorem Synchronizer.run_cycle {σ : Type} (b : Backend σ) (config : SyncConfig) (s : Synchronizer σ) :
    (cycle b config).run s =
      (((b.syncToHead config).run s.store).1,
        { s with
          store := ((b.syncToHead config).run s.store).2
          stats := s.stats.record ((b.syncToHead config).run s.store).1 }) := rfl

namespace Memory

variable {config : SyncConfig} {m m' : Memory}

/-- The record of a block that the node of a stream follows over the stores. -/
def recordAt (m : Memory) (node : Identity) (height : Nat) : BlockRecord :=
  let block := m.chain.blockAt height
  let tally := m.repository.tally node block.events
  ⟨height, block.timestamp, tally.applied, tally.skipped⟩

/-- The journal after blocks were recorded for a stream. -/
def recorded (m : Memory) (config : SyncConfig) (heights : List Nat) : Journal :=
  heights.foldl (fun j height => j.record config.stream (m.recordAt config.nodeOwner height)) m.journal

/-- The stores after some blocks were fetched and some recorded, with other cases. -/
def past (m : Memory) (config : SyncConfig) (fetched recorded : List Nat) (r : Repository) : Memory where
  repository := r
  checkpoints := m.checkpoints
  journal := m.recorded config recorded
  chain := { m.chain with fetched := m.chain.fetched ++ fetched }

theorem past_nil (m : Memory) (config : SyncConfig) : m.past config [] [] m.repository = m := by
  simp only [past, recorded, List.foldl_nil, List.append_nil]

variable {events : List LedgerEvent} {r r' : Repository} {fetched fetched' heights heights' : List Nat}

/-- Following blocks does not change how the blocks after them will be recorded. -/
theorem recordAt_past (h : m.repository.Follows config.nodeOwner events r) :
    (m.past config fetched heights r).recordAt = m.recordAt := by
  funext who height
  have same := congrFun h.tally_eq who
  unfold recordAt
  show BlockRecord.mk height _ (r.tally who _).applied (r.tally who _).skipped = _
  rw [same]
  rfl

/-- Blocks that are followed after others are fetched and recorded after them. -/
theorem past_past (h : m.repository.Follows config.nodeOwner events r) :
    (m.past config fetched heights r).past config fetched' heights' r' =
      m.past config (fetched ++ fetched') (heights ++ heights') r' := by
  have journal : (m.past config fetched heights r).recorded config heights' =
      m.recorded config (heights ++ heights') := by
    unfold recorded
    rw [recordAt_past h, List.foldl_append]
    rfl
  unfold past at journal ⊢
  rw [journal]
  simp only [List.append_assoc]

/-! ### Operations -/

theorem dispatch_ok {op : LedgerOperation} {on : Timestamp} {node : Identity} {result : DispatchResult}
    (h : (backend.dispatch node op on).run m = (.ok result, m')) :
    ∃ r, m' = { m with repository := r } ∧ m.repository.Follows node [⟨op, on⟩] r ∧
      ∀ tally : Tally, tally.count result = tally.add (m.repository.tally node [⟨op, on⟩]) := by
  rw [run_dispatch] at h
  cases hr : m.repository.ruling node op on with
  | refuse e =>
    rw [hr] at h
    cases h
  | pass reason =>
    rw [hr] at h
    obtain ⟨hresult, rfl⟩ := Prod.mk.inj h
    obtain ⟨follows, unheeded⟩ := Repository.follows_of_pass (e := ⟨op, on⟩) hr
    refine ⟨m.repository, rfl, follows, fun tally => ?_⟩
    rw [← Except.ok.inj hresult]
    simp [Tally.count, Tally.add, Repository.tally, unheeded]
  | stamp id after changes =>
    rw [hr] at h
    obtain ⟨hresult, rfl⟩ := Prod.mk.inj h
    obtain ⟨follows, heeded⟩ := Repository.follows_of_stamp (e := ⟨op, on⟩) hr
    refine ⟨_, rfl, follows, fun tally => ?_⟩
    rw [← Except.ok.inj hresult]
    simp [Tally.count, Tally.add, Repository.tally, heeded]

/-- An operation that fails was refused and leaves no trace. -/
theorem dispatch_error {op : LedgerOperation} {on : Timestamp} {node : Identity} {e : Error}
    (h : (backend.dispatch node op on).run m = (.error e, m')) :
    m' = m ∧ m.repository.ruling node op on = .refuse e := by
  rw [run_dispatch] at h
  cases hr : m.repository.ruling node op on with
  | refuse e' =>
    rw [hr] at h
    obtain ⟨he, rfl⟩ := Prod.mk.inj h
    exact ⟨rfl, congrArg Ruling.refuse (Except.error.inj he)⟩
  | pass reason =>
    rw [hr] at h
    cases (Prod.mk.inj h).1
  | stamp id after changes =>
    rw [hr] at h
    cases (Prod.mk.inj h).1

/-! ### The operations of a block -/

theorem dispatchAll_ok {on : Timestamp} {tally total : Tally} {ops : List LedgerOperation}
    (h : (backend.dispatchAll config on tally ops).run m = (.ok total, m')) :
    ∃ r, m' = { m with repository := r } ∧
      m.repository.Follows config.nodeOwner (ops.map (⟨·, on⟩)) r ∧
      total = tally.add (m.repository.tally config.nodeOwner (ops.map (⟨·, on⟩))) := by
  induction ops generalizing m tally with
  | nil =>
    obtain ⟨htotal, rfl⟩ := Prod.mk.inj h
    exact ⟨m.repository, rfl, .refl _, (Except.ok.inj htotal).symm⟩
  | cons op rest ih =>
    obtain ⟨result, m₁, ran, h⟩ := Action.run_bind_eq_ok.mp h
    obtain ⟨r₁, rfl, first, counted⟩ := dispatch_ok ran
    obtain ⟨r, rfl, follows, total⟩ := ih h
    refine ⟨r, rfl, first.trans follows, ?_⟩
    rw [total, counted, Tally.add_assoc, first.tally_eq, ← Repository.tally_append]
    rfl

/-- Operations that do not all come through have one that is refused, and nothing is done from
there on. -/
theorem dispatchAll_error {on : Timestamp} {tally : Tally} {ops : List LedgerOperation} {e : Error}
    (h : (backend.dispatchAll config on tally ops).run m = (.error e, m')) :
    ∃ before op after r, ops = before ++ op :: after ∧ m' = { m with repository := r } ∧
      m.repository.Follows config.nodeOwner (before.map (⟨·, on⟩)) r ∧
      r.ruling config.nodeOwner op on = .refuse e := by
  induction ops generalizing m tally with
  | nil => cases (Prod.mk.inj h).1
  | cons op rest ih =>
    rcases Action.run_bind_eq_error.mp h with failed | ⟨result, m₁, ran, h⟩
    · obtain ⟨rfl, refused⟩ := dispatch_error failed
      exact ⟨[], op, rest, m'.repository, rfl, rfl, .refl _, refused⟩
    · obtain ⟨r₁, rfl, first, _⟩ := dispatch_ok ran
      obtain ⟨before, op', after, r, rfl, rfl, follows, refused⟩ := ih h
      exact ⟨op :: before, op', after, r, rfl, rfl, first.trans follows, refused⟩

/-! ### Blocks -/

theorem run_fetchBlock (config : SyncConfig) {height : Nat} (h : height ≤ m.chain.head) :
    (backend.fetchBlock height).run m =
      (.ok (m.chain.blockAt height), m.past config [height] [] m.repository) := by
  show Action.run (Action.step _) m = _
  rw [Action.run_step, Chain.fetch, if_neg (Nat.not_lt.mpr h)]
  rfl

theorem run_fetchBlock_above {height : Nat} (h : m.chain.head < height) :
    ∃ e, (backend.fetchBlock height).run m = (.error e, m) := by
  refine ⟨.ledger s!"block {height} is above head {m.chain.head}", ?_⟩
  show Action.run (Action.step _) m = _
  rw [Action.run_step, Chain.fetch, if_pos h]
  rfl

theorem processBlock_ok {height : Nat} {record : BlockRecord} (le : height ≤ m.chain.head)
    (h : (backend.processBlock config height).run m = (.ok record, m')) :
    ∃ r, m' = m.past config [height] [height] r ∧
      m.repository.Follows config.nodeOwner (m.chain.blockAt height).events r ∧
      record = m.recordAt config.nodeOwner height := by
  rw [Backend.processBlock, Action.run_bind_of_ok (run_fetchBlock config le)] at h
  obtain ⟨tally, m₁, ran, h⟩ := Action.run_bind_eq_ok.mp h
  obtain ⟨r, rfl, follows, rfl⟩ := dispatchAll_ok ran
  rw [Tally.zero_add] at h
  obtain ⟨hrecord, rfl⟩ := Prod.mk.inj h
  exact ⟨r, rfl, follows, (Except.ok.inj hrecord).symm⟩

theorem processBlock_error {height : Nat} {e : Error} (le : height ≤ m.chain.head)
    (h : (backend.processBlock config height).run m = (.error e, m')) :
    ∃ before op after r, (m.chain.blockAt height).operations = before ++ op :: after ∧
      m' = m.past config [height] [] r ∧
      m.repository.Follows config.nodeOwner
        (before.map (⟨·, (m.chain.blockAt height).timestamp⟩)) r ∧
      r.ruling config.nodeOwner op (m.chain.blockAt height).timestamp = .refuse e := by
  rw [Backend.processBlock, Action.run_bind_of_ok (run_fetchBlock config le)] at h
  rcases Action.run_bind_eq_error.mp h with failed | ⟨tally, m₁, _, h⟩
  · obtain ⟨before, op, after, r, split, rfl, follows, refused⟩ := dispatchAll_error failed
    exact ⟨before, op, after, r, split, rfl, follows, refused⟩
  · cases (Prod.mk.inj h).1

/-! ### Ranges of blocks -/

theorem processFrom_ok {tally total : Tally} {height n : Nat} (le : height + n ≤ m.chain.head + 1)
    (h : (backend.processFrom config tally height n).run m = (.ok total, m')) :
    ∃ r, m' = m.past config (List.range' height n) (List.range' height n) r ∧
      m.repository.Follows config.nodeOwner (m.chain.events height n) r ∧
      total = tally.add (m.repository.tally config.nodeOwner (m.chain.events height n)) := by
  induction n generalizing m tally height with
  | zero =>
    obtain ⟨htotal, rfl⟩ := Prod.mk.inj h
    exact ⟨m.repository, (m.past_nil config).symm, .refl _, (Except.ok.inj htotal).symm⟩
  | succ n ih =>
    obtain ⟨record, m₁, ran, h⟩ := Action.run_bind_eq_ok.mp h
    obtain ⟨r₁, rfl, first, rfl⟩ := processBlock_ok (by omega) ran
    have le' : height + 1 + n ≤ (m.past config [height] [height] r₁).chain.head + 1 := by
      show _ ≤ m.chain.head + 1
      omega
    obtain ⟨r, rfl, follows, total⟩ := ih le' h
    have counted : (m.past config [height] [height] r₁).repository.tally config.nodeOwner =
        m.repository.tally config.nodeOwner := congrFun first.tally_eq _
    refine ⟨r, past_past first, ?_, ?_⟩
    · rw [Chain.events_succ]
      exact first.trans follows
    · rw [total, counted, Chain.events_succ, Repository.tally_append, ← Tally.add_assoc]
      rfl

/-- A range that does not come through has a block with an operation that is refused, and the
blocks before that one are done. -/
theorem processFrom_error {tally : Tally} {height n : Nat} {e : Error}
    (le : height + n ≤ m.chain.head + 1)
    (h : (backend.processFrom config tally height n).run m = (.error e, m')) :
    ∃ k < n, ∃ before op after r,
      (m.chain.blockAt (height + k)).operations = before ++ op :: after ∧
      m' = m.past config (List.range' height (k + 1)) (List.range' height k) r ∧
      m.repository.Follows config.nodeOwner
        (m.chain.events height k ++ before.map (⟨·, (m.chain.blockAt (height + k)).timestamp⟩)) r ∧
      r.ruling config.nodeOwner op (m.chain.blockAt (height + k)).timestamp = .refuse e := by
  induction n generalizing m tally height with
  | zero => cases (Prod.mk.inj h).1
  | succ n ih =>
    rcases Action.run_bind_eq_error.mp h with failed | ⟨record, m₁, ran, h⟩
    · obtain ⟨before, op, after, r, split, rfl, follows, refused⟩ := processBlock_error (by omega) failed
      exact ⟨0, Nat.succ_pos n, before, op, after, r, split, rfl, follows, refused⟩
    · obtain ⟨r₁, rfl, first, rfl⟩ := processBlock_ok (by omega) ran
      have le' : height + 1 + n ≤ (m.past config [height] [height] r₁).chain.head + 1 := by
        show _ ≤ m.chain.head + 1
        omega
      obtain ⟨k, lt, before, op, after, r, split, rfl, follows, refused⟩ := ih le' h
      have next : height + 1 + k = height + (k + 1) := by omega
      rw [next] at split follows refused
      refine ⟨k + 1, Nat.succ_lt_succ lt, before, op, after, r, split, past_past first, ?_, refused⟩
      rw [Chain.events_succ, List.append_assoc]
      exact first.trans follows

/-! ### Cycles -/

/-- The height from which a cycle goes on. -/
def startOf (m : Memory) (config : SyncConfig) : Nat := (m.checkpoints.height? config.stream).getD 0

theorem startOf_of_saved {checkpoints : Checkpoints} {height : Nat}
    (h : m.checkpoints = checkpoints.save config.stream height) : m.startOf config = height := by
  unfold startOf
  rw [h, Checkpoints.height?_save, if_pos rfl]
  rfl

theorem startOf_of_none (h : m.checkpoints.height? config.stream = none) : m.startOf config = 0 := by
  unfold startOf
  rw [h]
  rfl

theorem run_syncToHead (below : m.startOf config < m.chain.head) :
    (backend.syncToHead config).run m =
      (backend.advance config (m.startOf config) m.chain.head).run m := by
  show (if m.chain.head < m.startOf config then backend.startOver config (m.startOf config) m.chain.head
    else if m.startOf config = m.chain.head then pure (.upToDate m.chain.head)
    else backend.advance config (m.startOf config) m.chain.head).run m = _
  rw [if_neg (by omega), if_neg (by omega)]

/-- A cycle that comes through from below the head follows the blocks ahead, and moves the checkpoint. -/
theorem syncToHead_eq_ok {outcome : SyncOutcome} (below : m.startOf config < m.chain.head) :
    (backend.syncToHead config).run m = (.ok outcome, m') ↔
      ∃ total m₁, (backend.processFrom config .zero (m.startOf config + 1)
          (m.chain.head - m.startOf config)).run m = (.ok total, m₁) ∧
        outcome = .advanced (m.startOf config) m.chain.head total.applied total.skipped ∧
        m' = { m₁ with checkpoints := m₁.checkpoints.save config.stream m.chain.head } := by
  rw [run_syncToHead below, Backend.advance, Action.run_bind_eq_ok]
  constructor
  · rintro ⟨total, m₁, ran, h⟩
    obtain ⟨ho, rfl⟩ := Prod.mk.inj h
    exact ⟨total, m₁, ran, (Except.ok.inj ho).symm, rfl⟩
  · rintro ⟨total, m₁, ran, rfl, rfl⟩
    exact ⟨total, m₁, ran, rfl⟩

theorem syncToHead_ok {outcome : SyncOutcome} (below : m.startOf config < m.chain.head)
    (h : (backend.syncToHead config).run m = (.ok outcome, m')) :
    ∃ heights events tally r,
      heights = List.range' (m.startOf config + 1) (m.chain.head - m.startOf config) ∧
      events = m.chain.events (m.startOf config + 1) (m.chain.head - m.startOf config) ∧
      tally = m.repository.tally config.nodeOwner events ∧
      m' = { m.past config heights heights r with
        checkpoints := m.checkpoints.save config.stream m.chain.head } ∧
      m.repository.Follows config.nodeOwner events r ∧
      outcome = .advanced (m.startOf config) m.chain.head tally.applied tally.skipped := by
  obtain ⟨total, m₁, ran, rfl, rfl⟩ := (syncToHead_eq_ok below).mp h
  obtain ⟨r, rfl, follows, rfl⟩ := processFrom_ok (by omega) ran
  rw [Tally.zero_add]
  exact ⟨_, _, _, r, rfl, rfl, rfl, rfl, follows, rfl⟩

theorem syncToHead_error {e : Error} (below : m.startOf config < m.chain.head)
    (h : (backend.syncToHead config).run m = (.error e, m')) :
    ∃ k < m.chain.head - m.startOf config, ∃ before op after r,
      (m.chain.blockAt (m.startOf config + 1 + k)).operations = before ++ op :: after ∧
      m' = m.past config (List.range' (m.startOf config + 1) (k + 1))
        (List.range' (m.startOf config + 1) k) r ∧
      m.repository.Follows config.nodeOwner
        (m.chain.events (m.startOf config + 1) k ++
          before.map (⟨·, (m.chain.blockAt (m.startOf config + 1 + k)).timestamp⟩)) r ∧
      r.ruling config.nodeOwner op (m.chain.blockAt (m.startOf config + 1 + k)).timestamp = .refuse e := by
  rw [run_syncToHead below] at h
  rcases Action.run_bind_eq_error.mp h with failed | ⟨total, m₁, _, h⟩
  · exact processFrom_error (by omega) failed
  · cases (Prod.mk.inj h).1

theorem records_recorded_of_ne {stream : String} (ne : stream ≠ config.stream) (heights : List Nat) :
    (m.recorded config heights).records stream = m.journal.records stream := by
  induction heights using List.reverseRecOn with
  | nil => rfl
  | append_singleton heights height ih =>
    unfold recorded at ih ⊢
    rw [List.foldl_append]
    exact (Journal.records_record_of_ne _ _ ne).trans ih

/-- Blocks that are recorded take the place of all earlier records of their heights. -/
theorem records_recorded {heights : List Nat} (nodup : heights.Nodup) :
    (m.recorded config heights).records config.stream =
      (m.journal.records config.stream).filter (·.height ∉ heights) ++
        heights.map (m.recordAt config.nodeOwner) := by
  induction heights using List.reverseRecOn with
  | nil =>
    rw [List.filter_eq_self.mpr fun _ _ => by simp]
    exact (List.append_nil _).symm
  | append_singleton heights height ih =>
    obtain ⟨nodup, _, fresh⟩ := List.nodup_append.mp nodup
    have kept : (heights.map (m.recordAt config.nodeOwner)).filter (·.height ≠ height) =
        heights.map (m.recordAt config.nodeOwner) := by
      rw [List.filter_eq_self]
      intro record hrecord
      obtain ⟨other, hother, rfl⟩ := List.mem_map.mp hrecord
      exact decide_eq_true (fresh other hother height List.mem_cons_self)
    have grown : m.recorded config (heights ++ [height]) =
        (m.recorded config heights).record config.stream (m.recordAt config.nodeOwner height) :=
      List.foldl_append
    have height_eq : (m.recordAt config.nodeOwner height).height = height := rfl
    rw [grown, Journal.records_record, ih nodup, List.filter_append, List.filter_filter, height_eq, kept,
      List.map_append, List.append_assoc]
    congr 1
    refine List.filter_congr fun record _ => ?_
    simp [and_comm]

/-- What the stores are after a cycle that came through, having begun at a height. -/
structure Advanced (config : SyncConfig) (start applied skipped : Nat) (m m' : Memory) : Prop where
  fetched : m'.chain = { m.chain with
    fetched := m.chain.fetched ++ List.range' (start + 1) (m.chain.head - start) }
  checkpoint : m'.checkpoints.height? config.stream = some m.chain.head
  otherCheckpoints : ∀ stream ≠ config.stream,
    m'.checkpoints.height? stream = m.checkpoints.height? stream
  journal : m'.journal = m.recorded config (List.range' (start + 1) (m.chain.head - start))
  otherRecords : ∀ stream ≠ config.stream, m'.journal.records stream = m.journal.records stream
  cases : m.repository.Follows config.nodeOwner (m.chain.events (start + 1) (m.chain.head - start))
    m'.repository
  operations : applied + skipped = (m.chain.events (start + 1) (m.chain.head - start)).length
  saves : ∃ saved, m'.repository.saves = m.repository.saves ++ saved ∧ saved.length = applied ∧
    ∀ entry ∈ saved, entry.2.IsUpdateOnly

/-- What the stores are after a cycle that ended with an error, having begun at a height, at an
operation of a block. -/
structure Aborted (config : SyncConfig) (start : Nat) (e : Error) (height : Nat)
    (done : List LedgerOperation) (op : LedgerOperation) (m m' : Memory) : Prop where
  above : start < height
  below : height ≤ m.chain.head
  block : ∃ left, (m.chain.blockAt height).operations = done ++ op :: left
  raised : (backend.dispatch config.nodeOwner op (m.chain.blockAt height).timestamp).run m' = (.error e, m')
  fetched : m'.chain = { m.chain with
    fetched := m.chain.fetched ++ List.range' (start + 1) (height - start) }
  checkpoints : m'.checkpoints = m.checkpoints
  journal : m'.journal = m.recorded config (List.range' (start + 1) (height - 1 - start))
  otherRecords : ∀ stream ≠ config.stream, m'.journal.records stream = m.journal.records stream
  cases : m.repository.Follows config.nodeOwner
    (m.chain.events (start + 1) (height - 1 - start) ++
      done.map (⟨·, (m.chain.blockAt height).timestamp⟩)) m'.repository

/-- A cycle below the head is a fold over the events up to the head, or up to the operation that
it fails at. -/
theorem cycle_below_head (config : SyncConfig) (s : Synchronizer Memory)
    (below : s.store.startOf config < s.store.chain.head) :
    (∃ applied skipped s',
      (Synchronizer.cycle backend config).run s =
        (.ok (.advanced (s.store.startOf config) s.store.chain.head applied skipped), s') ∧
      Advanced config (s.store.startOf config) applied skipped s.store s'.store) ∨
    (∃ e height done op s',
      (Synchronizer.cycle backend config).run s = (.error e, s') ∧
      Aborted config (s.store.startOf config) e height done op s.store s'.store) := by
  have cycled := Synchronizer.run_cycle backend config s
  obtain ⟨e | outcome, m', ran⟩ :
      ∃ result after, (backend.syncToHead config).run s.store = (result, after) := ⟨_, _, rfl⟩
  · rw [ran] at cycled
    obtain ⟨k, lt, done, op, left, r, split, rfl, follows, refused⟩ := syncToHead_error below ran
    refine .inr ⟨e, s.store.startOf config + 1 + k, done, op, _, cycled,
      by omega, by omega, ⟨left, split⟩, ?_, ?_, rfl, ?_, fun stream ne => records_recorded_of_ne ne _, ?_⟩
    · rw [run_dispatch]
      exact congrArg (Ruling.settle _) refused
    · rw [show s.store.startOf config + 1 + k - s.store.startOf config = k + 1 by omega]
      rfl
    · rw [show s.store.startOf config + 1 + k - 1 - s.store.startOf config = k by omega]
      rfl
    · rw [show s.store.startOf config + 1 + k - 1 - s.store.startOf config = k by omega]
      exact follows
  · rw [ran] at cycled
    obtain ⟨_, _, _, r, rfl, rfl, rfl, rfl, follows, rfl⟩ := syncToHead_ok below ran
    refine .inl ⟨_, _, _, cycled, rfl, ?_, fun stream ne => ?_, rfl,
      fun stream ne => records_recorded_of_ne ne _, follows, Repository.tally_total _ _ _, follows.saves⟩
    · rw [Checkpoints.height?_save, if_pos rfl]
    · rw [Checkpoints.height?_save, if_neg ne]

end Memory

/-! ### A ledger of two blocks, for an instance -/

namespace Sample

def node : Identity := ⟨"node"⟩

def config : SyncConfig := ⟨"loc", node, 6000⟩

def saleId : CaseId := ⟨⟨List.replicate 16 0, rfl⟩⟩

/-- An open case of the node without items. -/
def sale : Case where
  id := saleId
  status := .opened
  owner := node
  requester := some (.address ⟨"buyer"⟩)
  description := "sale of a house"
  kind := .transaction
  createdOn := none
  decisionOn := none
  rejectionReason := none
  closedOn := none
  voidInfo := none
  sealInfo := none
  identityVerification := none
  creationFees := none
  delegates := ∅
  items := ∅
  collectionItems := []

/-- The arguments of an operation on the sale. -/
def onSale (more : List (String × Json)) : Json :=
  .object (("loc_id", .string "00000000-0000-0000-0000-000000000000") :: more)

def closing : LedgerOperation := .new "loc.close" (onSale [])

/-- The sale, and a ledger that is empty at height 1 and closes it at height 2. -/
def memory : Memory where
  repository := Repository.empty.insert sale
  checkpoints := .empty
  journal := .empty
  chain := Chain.empty.push ⟨2, .epoch, [.new "balances.transfer" .null, closing]⟩

end Sample

theorem Memory.cycle_of_sample :
    Sample.memory.startOf Sample.config < Sample.memory.chain.head ∧
      ∃ s, Advanced Sample.config 0 1 1 Sample.memory s := by
  have below : Sample.memory.startOf Sample.config < Sample.memory.chain.head := by decide
  have answer : ((Synchronizer.cycle backend Sample.config).run (.new Sample.memory)).1 =
      .ok (.advanced 0 2 1 1) := by decide +kernel
  refine ⟨below, ?_⟩
  rcases cycle_below_head Sample.config (.new Sample.memory) below with
    ⟨applied, skipped, s, ran, advanced⟩ | ⟨e, _, _, _, s, ran, _⟩
  · rw [ran] at answer
    cases answer
    exact ⟨s.store, advanced⟩
  · rw [ran] at answer
    cases answer

end CaseRegistry
