import CaseRegistry.Proofs.Sync.Cycle

/-! Failed cycles and the retry that succeeds.

A cycle that fails leaves what it followed of the ledger in the stores. That does no harm:
however many cycles fail, and whatever cases are made in between, the cycle that succeeds
in the end comes to the same as a single one that began where the first began, with all
of the cases there (`retry_eq_single_cycle`). The stores in between are `HalfDone`: every
case has followed some of the first events ahead, which it absorbs when it meets them
again, and only blocks ahead have been recorded. -/
namespace CaseRegistry

/-- A synchronizer after cycles that failed and cases that were made, in any order. -/
inductive Tried (config : SyncConfig) (s : Synchronizer Memory) :
    List Case → Synchronizer Memory → Prop where
  | start : Tried config s [] s
  | failed {made : List Case} {s' s'' : Synchronizer Memory} {e : Error} : Tried config s made s' →
      (Synchronizer.cycle Memory.backend config).run s' = (.error e, s'') → Tried config s made s''
  | made {made : List Case} {s' s'' : Synchronizer Memory} {c c' : Case} : Tried config s made s' →
      (Synchronizer.onStore (Memory.backend.createCase c)).run s' = (.ok c', s'') →
      Tried config s (made ++ [c]) s''

theorem Chain.events_add (c : Chain) (height k n : Nat) :
    c.events height (k + n) = c.events height k ++ c.events (height + k) n := by
  simp only [events, ← List.range'_append_1, List.flatMap_append]

namespace Memory

variable {config : SyncConfig} {m m' m'' : Memory} {made : List Case}

/-- The stores with cases put in, in order. -/
def extended (m : Memory) (cases : List Case) : Memory :=
  { m with repository := cases.foldl Repository.insert m.repository }

theorem extended_append (m : Memory) (made : List Case) (c : Case) :
    (m.extended (made ++ [c])).repository = (m.extended made).repository.insert c :=
  List.foldl_append

/-- The heights that a stream has not been followed to. -/
def heightsAhead (m : Memory) (config : SyncConfig) : List Nat :=
  List.range' (m.startOf config + 1) (m.chain.head - m.startOf config)

/-- The events that a stream has not followed. -/
def eventsAhead (m : Memory) (config : SyncConfig) : List LedgerEvent :=
  m.chain.events (m.startOf config + 1) (m.chain.head - m.startOf config)

/-- The events ahead, cut at an operation of a block. -/
theorem eventsAhead_split {k : Nat} (lt : k < m.chain.head - m.startOf config) {on : Timestamp}
    {before after : List LedgerOperation} {op : LedgerOperation}
    (split : (m.chain.blockAt (m.startOf config + 1 + k)).operations = before ++ op :: after)
    (hon : (m.chain.blockAt (m.startOf config + 1 + k)).timestamp = on) :
    ∃ rest, m.eventsAhead config =
      (m.chain.events (m.startOf config + 1) k ++ before.map (⟨·, on⟩)) ++ ⟨op, on⟩ :: rest := by
  have count : m.chain.head - m.startOf config = k + (m.chain.head - m.startOf config - k - 1 + 1) := by
    omega
  unfold eventsAhead
  rw [count, Chain.events_add, Chain.events_succ, LedgerBlock.events, split, hon, List.map_append]
  refine ⟨after.map (⟨·, on⟩) ++ m.chain.events (m.startOf config + 1 + k + 1)
    (m.chain.head - m.startOf config - k - 1), ?_⟩
  simp only [List.map_cons, List.append_assoc, List.cons_append]

/-- Nothing that cases, checkpoints and journals can be asked tells two stores apart. -/
structure Agrees (m m' : Memory) : Prop where
  cases : ∀ id, m.repository.find? id = m'.repository.find? id
  ids : m.repository.ids = m'.repository.ids
  checkpoints : m.checkpoints = m'.checkpoints
  records : ∀ stream, m.journal.records stream = m'.journal.records stream

/-- The stores between a start and its success. -/
structure HalfDone (config : SyncConfig) (m : Memory) (made : List Case) (m' : Memory) : Prop where
  head : m'.chain.head = m.chain.head
  blocks : m'.chain.blocks = m.chain.blocks
  checkpoints : m'.checkpoints = m.checkpoints
  ids : m'.repository.ids = (m.extended made).repository.ids
  cases : ∀ id c, (m.extended made).repository.find? id = some c → ∃ first c',
    first <+: m.eventsAhead config ∧ c.followed config.nodeOwner first = .ok c' ∧
      m'.repository.find? id = some c'
  records : (m'.journal.records config.stream).filter (·.height ∉ m.heightsAhead config) =
    (m.journal.records config.stream).filter (·.height ∉ m.heightsAhead config)
  otherRecords : ∀ stream ≠ config.stream, m'.journal.records stream = m.journal.records stream

namespace HalfDone

theorem start (config : SyncConfig) (m : Memory) : HalfDone config m [] m where
  head := rfl
  blocks := rfl
  checkpoints := rfl
  ids := rfl
  cases _ c found := ⟨[], c, List.nil_prefix, c.followed_nil _, found⟩
  records := rfl
  otherRecords _ _ := rfl

theorem startOf_eq (h : HalfDone config m made m') : m'.startOf config = m.startOf config := by
  unfold startOf
  rw [h.checkpoints]

theorem eventsAhead_eq (h : HalfDone config m made m') : m'.eventsAhead config = m.eventsAhead config := by
  unfold eventsAhead
  rw [h.startOf_eq, h.head, Chain.events_congr h.blocks]

theorem unknown (h : HalfDone config m made m') {id : CaseId}
    (hn : (m.extended made).repository.find? id = none) : m'.repository.find? id = none :=
  Repository.unknown_of_ids h.ids hn

theorem ownerOf?_eq (h : HalfDone config m made m') :
    m'.repository.ownerOf? = (m.extended made).repository.ownerOf? := by
  refine Repository.ownerOf?_congr h.ids fun id c found => ?_
  obtain ⟨first, c', _, hc, found'⟩ := h.cases id c found
  exact ⟨c', found', (Case.followed_continues hc).owner⟩

/-- A case that came through what it has followed comes to the same end as it does from the start. -/
theorem followed_ahead (h : HalfDone config m made m') {id : CaseId} {c : Case}
    (found : (m.extended made).repository.find? id = some c) :
    ∃ c', m'.repository.find? id = some c' ∧
      c'.followed config.nodeOwner (m.eventsAhead config) =
        c.followed config.nodeOwner (m.eventsAhead config) := by
  obtain ⟨first, c', le, hc, found'⟩ := h.cases id c found
  exact ⟨c', found', Case.followed_of_prefix hc le⟩

/-- Another case is made. -/
theorem create (h : HalfDone config m made m') {c : Case} (fresh : m'.repository.find? c.id = none) :
    HalfDone config m (made ++ [c]) { m' with repository := m'.repository.save c ∅ } where
  head := h.head
  blocks := h.blocks
  checkpoints := h.checkpoints
  ids := by
    have unknown : (m.extended made).repository.find? c.id = none :=
      Repository.unknown_of_ids h.ids.symm fresh
    have saved : (m'.repository.save c ∅).ids = m'.repository.ids ++ [c.id] :=
      Repository.ids_insert (r := m'.repository) fresh
    rw [extended_append, Repository.ids_insert unknown, ← h.ids]
    exact saved
  cases id d found := by
    rw [extended_append, Repository.find?_insert] at found
    show ∃ first c', _ ∧ _ ∧ (m'.repository.save c ∅).find? id = some c'
    rw [Repository.find?_save]
    split at found
    · next same =>
      obtain rfl := Option.some.inj found
      exact ⟨[], c, List.nil_prefix, c.followed_nil _, if_pos same⟩
    · next ne =>
      obtain ⟨first, c', le, hc, found'⟩ := h.cases id d found
      exact ⟨first, c', le, hc, by rw [if_neg ne, found']⟩
  records := h.records
  otherRecords := h.otherRecords

/-- Of two first stretches of events the longer one is what a case has followed in the end. -/
theorem followed_twice {node : Identity} {events first second : List LedgerEvent} {c c' c'' : Case}
    (le : first <+: events) (le' : second <+: events) (h : c.followed node first = .ok c')
    (h' : c'.followed node second = .ok c'') :
    ∃ longer, longer <+: events ∧ c.followed node longer = .ok c'' := by
  rcases List.prefix_or_prefix_of_prefix le le' with shorter | longer
  · exact ⟨second, le', by rw [← Case.followed_of_prefix h shorter, h']⟩
  · have same := Case.followed_again h longer.subset
    obtain rfl := Except.ok.inj (same.symm.trans h')
    exact ⟨first, le, h⟩

/-- Another cycle fails. -/
theorem fail (h : HalfDone config m made m') {e : Error} (below : m.startOf config < m.chain.head)
    (failed : (backend.syncToHead config).run m' = (.error e, m'')) : HalfDone config m made m'' := by
  have below' : m'.startOf config < m'.chain.head := by
    rw [h.startOf_eq, h.head]
    exact below
  obtain ⟨k, lt, before, op, after, r, split, rfl, follows, _⟩ := syncToHead_error below' failed
  rw [h.startOf_eq, h.head] at lt
  rw [h.startOf_eq, Chain.events_congr h.blocks, Chain.blockAt_congr h.blocks] at follows
  rw [h.startOf_eq, Chain.blockAt_congr h.blocks] at split
  obtain ⟨rest, ahead⟩ := eventsAhead_split lt split rfl
  have le : _ <+: m.eventsAhead config := ⟨_, ahead.symm⟩
  refine ⟨h.head, h.blocks, h.checkpoints, follows.ids.trans h.ids, fun id c found => ?_, ?_,
    fun stream ne => (records_recorded_of_ne ne _).trans (h.otherRecords stream ne)⟩
  · obtain ⟨first, c', le', hc, found'⟩ := h.cases id c found
    obtain ⟨c'', hc', found''⟩ := follows.cases id c' found'
    obtain ⟨longer, hl, hc''⟩ := followed_twice le' le hc hc'
    exact ⟨longer, c'', hl, hc'', found''⟩
  · rw [← h.records]
    show ((m'.recorded config _).records config.stream).filter _ = _
    rw [h.startOf_eq, records_recorded List.nodup_range', List.filter_append, List.filter_filter]
    have within : ∀ height ∈ List.range' (m.startOf config + 1) k, height ∈ m.heightsAhead config := by
      intro height hheight
      rw [List.mem_range'_1] at hheight
      unfold heightsAhead
      rw [List.mem_range'_1]
      omega
    have none : ((List.range' (m.startOf config + 1) k).map (m'.recordAt config.nodeOwner)).filter
        (·.height ∉ m.heightsAhead config) = [] := by
      rw [List.filter_eq_nil_iff]
      intro record hrecord
      obtain ⟨height, hheight, rfl⟩ := List.mem_map.mp hrecord
      have hr : (m'.recordAt config.nodeOwner height).height ∈ m.heightsAhead config := within height hheight
      simpa using hr
    rw [none, List.append_nil]
    refine List.filter_congr fun record _ => ?_
    by_cases hr : record.height ∈ m.heightsAhead config
    · simp [hr]
    · have hk : record.height ∉ List.range' (m.startOf config + 1) k := fun hk => hr (within _ hk)
      simp [hr, hk]

/-- Where half done stores come through, so does a start with all cases there: it meets no refusal
that the retry does not meet. -/
theorem single_ok (h : HalfDone config m made m') {r : Repository}
    (below : m.startOf config < m.chain.head)
    (follows : m'.repository.Follows config.nodeOwner (m.eventsAhead config) r) {e : Error} :
    ((backend.syncToHead config).run (m.extended made)).1 ≠ .error e := by
  intro failed
  obtain ⟨k, lt, before, op, after, r', split, _, follows', refused⟩ :=
    syncToHead_error (m := m.extended made) below (Prod.ext failed rfl)
  obtain ⟨rest, ahead⟩ := eventsAhead_split (m := m) lt split rfl
  have admits : r'.Admits config.nodeOwner ⟨op, (m.chain.blockAt (m.startOf config + 1 + k)).timestamp⟩ := by
    rw [Repository.admits_congr (follows'.ownerOf?_eq.trans h.ownerOf?_eq.symm)]
    refine follows.admits _ ?_
    rw [ahead]
    exact List.mem_append_right _ List.mem_cons_self
  obtain ⟨id, d, found', refuses⟩ := Repository.refused_by_case admits refused
  cases found : (m.extended made).repository.find? id with
  | none => cases found'.symm.trans (follows'.unknown found)
  | some c =>
    obtain ⟨d', hc, hd⟩ := follows'.cases id c found
    obtain rfl : d = d' := Option.some.inj (found'.symm.trans hd)
    obtain ⟨c', hc', same⟩ := h.followed_ahead found
    obtain ⟨c'', done, _⟩ := follows.cases id c' hc'
    -- what the retry shows of the case from the start reaches past the operation
    rw [same, ahead, Case.followed_append, bind_eq_ok] at done
    obtain ⟨d', hd', done⟩ := done
    obtain rfl : d = d' := Except.ok.inj (hc.symm.trans hd')
    rw [← List.singleton_append, Case.followed_append, bind_eq_ok] at done
    obtain ⟨d'', hd'', _⟩ := done
    exact refuses d'' hd''

/-- Half done stores that come through agree with a start with all cases there that comes through. -/
theorem agrees (h : HalfDone config m made m') {r r' : Repository}
    (follows : m'.repository.Follows config.nodeOwner (m.eventsAhead config) r)
    (follows' : (m.extended made).repository.Follows config.nodeOwner (m.eventsAhead config) r') :
    Agrees
      { m'.past config (m.heightsAhead config) (m.heightsAhead config) r with
        checkpoints := m'.checkpoints.save config.stream m.chain.head }
      { (m.extended made).past config (m.heightsAhead config) (m.heightsAhead config) r' with
        checkpoints := m.checkpoints.save config.stream m.chain.head } where
  cases id := by
    show r.find? id = r'.find? id
    cases found : (m.extended made).repository.find? id with
    | none => rw [follows.unknown (h.unknown found), follows'.unknown found]
    | some c =>
      obtain ⟨c', found', same⟩ := h.followed_ahead found
      obtain ⟨d, hd, hr⟩ := follows.cases id c' found'
      obtain ⟨d', hd', hr'⟩ := follows'.cases id c found
      rw [hr, hr', Except.ok.inj (hd.symm.trans (same.trans hd'))]
  ids := follows.ids.trans (h.ids.trans follows'.ids.symm)
  checkpoints := by rw [h.checkpoints]
  records stream := by
    show (m'.recorded config _).records stream = ((m.extended made).recorded config _).records stream
    by_cases ne : stream = config.stream
    · subst ne
      have nodup : (m.heightsAhead config).Nodup := List.nodup_range'
      have recordAt : m'.recordAt = (m.extended made).recordAt := by
        funext who height
        unfold recordAt
        rw [Chain.blockAt_congr h.blocks, Repository.tally_congr h.ownerOf?_eq]
        rfl
      rw [records_recorded nodup, records_recorded nodup, h.records, recordAt]
      rfl
    · rw [records_recorded_of_ne ne, records_recorded_of_ne ne]
      exact h.otherRecords stream ne

/-- Where nothing lies ahead nothing was followed. -/
theorem agrees_of_not_below (h : HalfDone config m made m') (le : m.chain.head ≤ m.startOf config) :
    m'.Agrees (m.extended made) where
  cases id := by
    have none : m.eventsAhead config = [] := by
      unfold eventsAhead
      rw [Nat.sub_eq_zero_of_le le]
      rfl
    cases found : (m.extended made).repository.find? id with
    | none => exact h.unknown found
    | some c =>
      obtain ⟨c', found', same⟩ := h.followed_ahead found
      rw [none, c'.followed_nil, c.followed_nil] at same
      rw [found', Except.ok.inj same]
  ids := h.ids
  checkpoints := h.checkpoints
  records stream := by
    show m'.journal.records stream = m.journal.records stream
    by_cases ne : stream = config.stream
    · have all : ∀ records : List BlockRecord,
          records.filter (·.height ∉ m.heightsAhead config) = records := by
        intro records
        unfold heightsAhead
        rw [Nat.sub_eq_zero_of_le le]
        exact List.filter_eq_self.mpr fun _ _ => by simp
      rw [ne, ← all (m'.journal.records _), h.records, all]
    · exact h.otherRecords stream ne

end HalfDone

/-! ### Cycles that do not begin below the head -/

theorem syncToHead_at_head (h : m.startOf config = m.chain.head) :
    (backend.syncToHead config).run m = (.ok (.upToDate m.chain.head), m) := by
  show (if m.chain.head < m.startOf config then backend.startOver config (m.startOf config) m.chain.head
    else if m.startOf config = m.chain.head then pure (.upToDate m.chain.head)
    else backend.advance config (m.startOf config) m.chain.head).run m = _
  rw [if_neg (by omega), if_pos h]
  rfl

theorem syncToHead_above_head (h : m.chain.head < m.startOf config) :
    (backend.syncToHead config).run m =
      (.ok (.reset (m.startOf config) m.chain.head),
        { m with
          journal := m.journal.discard config.stream
          checkpoints := m.checkpoints.delete config.stream }) := by
  show (if m.chain.head < m.startOf config then backend.startOver config (m.startOf config) m.chain.head
    else if m.startOf config = m.chain.head then pure (.upToDate m.chain.head)
    else backend.advance config (m.startOf config) m.chain.head).run m = _
  rw [if_pos h]
  rfl

/-- Only cycles that begin below the head can fail. -/
theorem below_of_error {e : Error} (h : (backend.syncToHead config).run m = (.error e, m')) :
    m.startOf config < m.chain.head := by
  rcases Nat.lt_trichotomy (m.startOf config) m.chain.head with below | at_head | above
  · exact below
  · rw [syncToHead_at_head at_head] at h
    cases (Prod.mk.inj h).1
  · rw [syncToHead_above_head above] at h
    cases (Prod.mk.inj h).1

theorem createCase_ok {c c' : Case} (h : (backend.createCase c).run m = (.ok c', m')) :
    m.repository.find? c.id = none ∧ m' = { m with repository := m.repository.save c ∅ } := by
  unfold Backend.createCase at h
  rw [Action.run_bind_of_ok (run_findCase c.id m), Action.run_bind, Action.run_ofExcept] at h
  unfold ensure at h
  split at h
  · next fresh => exact ⟨fresh, (Prod.mk.inj h).2.symm⟩
  · cases (Prod.mk.inj h).1

/-- What was tried and failed leaves the stores half done. -/
theorem halfDone_of_tried {s s' : Synchronizer Memory} (h : Tried config s made s') :
    HalfDone config s.store made s'.store := by
  induction h with
  | start => exact .start config s.store
  | @failed made s' s'' e _ failed ih =>
    obtain ⟨result, after, ran⟩ :
        ∃ result after, (backend.syncToHead config).run s'.store = (result, after) := ⟨_, _, rfl⟩
    rw [Synchronizer.run_cycle, ran] at failed
    obtain ⟨rfl, rfl⟩ := Prod.mk.inj failed
    have below := below_of_error ran
    rw [ih.startOf_eq, ih.head] at below
    exact ih.fail below ran
  | @made made s' s'' c c' _ created ih =>
    obtain ⟨result, after, ran⟩ :
        ∃ result after, (backend.createCase c).run s'.store = (result, after) := ⟨_, _, rfl⟩
    rw [Synchronizer.onStore, Action.run_on, ran] at created
    obtain ⟨rfl, rfl⟩ := Prod.mk.inj created
    obtain ⟨fresh, rfl⟩ := createCase_ok ran
    exact ih.create fresh

namespace HalfDone

variable {outcome : SyncOutcome}

/-- Below the head, half done stores follow the events ahead to the same end as a start with all
cases there. -/
theorem retry_below (h : HalfDone config m made m') (below : m.startOf config < m.chain.head)
    (ran : (backend.syncToHead config).run m' = (.ok outcome, m'')) :
    ∃ single, (backend.syncToHead config).run (m.extended made) = (.ok outcome, single) ∧
      m''.Agrees single := by
  have below' : m'.startOf config < m'.chain.head := by
    rw [h.startOf_eq, h.head]
    exact below
  obtain ⟨_, _, _, r, rfl, rfl, rfl, hafter, follows, hout⟩ := syncToHead_ok below' ran
  have ahead : m'.repository.Follows config.nodeOwner (m.eventsAhead config) r :=
    h.eventsAhead_eq ▸ follows
  obtain ⟨e | fresh, single, ran'⟩ : ∃ result single,
      (backend.syncToHead config).run (m.extended made) = (result, single) := ⟨_, _, rfl⟩
  · exact absurd (congrArg Prod.fst ran') (h.single_ok below ahead)
  · obtain ⟨_, _, _, r', rfl, rfl, rfl, hsingle, follows', hfresh⟩ :=
      syncToHead_ok (m := m.extended made) below ran'
    have same : fresh = outcome := by
      rw [hout, hfresh, Repository.tally_congr h.ownerOf?_eq, h.startOf_eq, h.head,
        Chain.events_congr h.blocks]
      rfl
    refine ⟨single, same ▸ ran', ?_⟩
    rw [hafter, hsingle, h.startOf_eq, h.head]
    exact h.agrees ahead follows'

theorem retry_at_head (h : HalfDone config m made m') (at_head : m.startOf config = m.chain.head)
    (ran : (backend.syncToHead config).run m' = (.ok outcome, m'')) :
    ∃ single, (backend.syncToHead config).run (m.extended made) = (.ok outcome, single) ∧
      m''.Agrees single := by
  rw [syncToHead_at_head (by rw [h.startOf_eq, h.head, at_head])] at ran
  obtain ⟨ho, rfl⟩ := Prod.mk.inj ran
  have same : SyncOutcome.upToDate m.chain.head = outcome := by
    rw [← Except.ok.inj ho, h.head]
  exact ⟨_, same ▸ syncToHead_at_head (m := m.extended made) at_head, h.agrees_of_not_below at_head.ge⟩

theorem retry_above_head (h : HalfDone config m made m') (above : m.chain.head < m.startOf config)
    (ran : (backend.syncToHead config).run m' = (.ok outcome, m'')) :
    ∃ single, (backend.syncToHead config).run (m.extended made) = (.ok outcome, single) ∧
      m''.Agrees single := by
  rw [syncToHead_above_head (by rw [h.startOf_eq, h.head]; exact above)] at ran
  obtain ⟨ho, rfl⟩ := Prod.mk.inj ran
  have agrees := h.agrees_of_not_below above.le
  have same : SyncOutcome.reset (m.startOf config) m.chain.head = outcome := by
    rw [← Except.ok.inj ho, h.startOf_eq, h.head]
  rw [← same]
  refine ⟨_, syncToHead_above_head (m := m.extended made) above, agrees.cases, agrees.ids,
    congrArg (Checkpoints.delete · config.stream) agrees.checkpoints, fun stream => ?_⟩
  show (m'.journal.discard _).records stream = (m.journal.discard _).records stream
  rw [Journal.records_discard, Journal.records_discard]
  split
  · rfl
  · exact agrees.records stream

end HalfDone

/-- Whatever failed before, and whatever cases were made meanwhile, a cycle that succeeds has the
outcome of a single one that begins at the start with all of these cases there, and the stores cannot
be told apart afterwards. -/
theorem retry_eq_single_cycle (config : SyncConfig) {s s' s'' : Synchronizer Memory} {made : List Case}
    {outcome : SyncOutcome} (tried : Tried config s made s')
    (succeeded : (Synchronizer.cycle backend config).run s' = (.ok outcome, s'')) :
    ∃ single, (Synchronizer.cycle backend config).run { s with store := s.store.extended made } =
        (.ok outcome, single) ∧ s''.store.Agrees single.store := by
  have h := halfDone_of_tried tried
  obtain ⟨result, after, ran⟩ :
      ∃ result after, (backend.syncToHead config).run s'.store = (result, after) := ⟨_, _, rfl⟩
  rw [Synchronizer.run_cycle, ran] at succeeded
  obtain ⟨rfl, rfl⟩ := Prod.mk.inj succeeded
  rw [Synchronizer.run_cycle]
  have same : ∃ single, (backend.syncToHead config).run (s.store.extended made) = (.ok outcome, single) ∧
      after.Agrees single := by
    rcases Nat.lt_trichotomy (s.store.startOf config) s.store.chain.head with below | at_head | above
    · exact h.retry_below below ran
    · exact h.retry_at_head at_head ran
    · exact h.retry_above_head above ran
  obtain ⟨single, hs, agrees⟩ := same
  exact ⟨_, by rw [hs], agrees⟩

end Memory
/-! ### A purchase that is closed before it is known -/

namespace Sample

def purchaseId : CaseId := ⟨⟨List.replicate 15 0 ++ [1], rfl⟩⟩

def purchase : Case := { sale with id := purchaseId, description := "purchase of a house" }

def closingPurchase : LedgerOperation :=
  .new "loc.close" (.object [("loc_id", .string "00000000-0000-0000-0000-000000000001")])

/-- The sale, and a ledger that closes it at height 1 along with the purchase. -/
def early : Memory := { memory with chain := Chain.empty.push ⟨1, .epoch, [closing, closingPurchase]⟩ }

/-- A cycle has met the purchase before it is known. -/
def failedOnce : Synchronizer Memory :=
  ((Synchronizer.cycle Memory.backend config).run (.new early)).2

/-- The purchase has been made after that. -/
def repaired : Synchronizer Memory :=
  ((Synchronizer.onStore (Memory.backend.createCase purchase)).run failedOnce).2

end Sample

theorem Memory.retry_of_sample :
    Tried Sample.config (.new Sample.early) [Sample.purchase] Sample.repaired ∧
      ∃ s'', (Synchronizer.cycle backend Sample.config).run Sample.repaired =
          (.ok (.advanced 0 1 2 0), s'') ∧
        ∃ single, (Synchronizer.cycle backend Sample.config).run
            { Synchronizer.new Sample.early with store := Sample.early.extended [Sample.purchase] } =
          (.ok (.advanced 0 1 2 0), single) ∧ s''.store.Agrees single.store := by
  have failed : ((Synchronizer.cycle backend Sample.config).run (.new Sample.early)).1 =
      .error (.missingTarget "loc.close" Sample.purchaseId) := by decide +kernel
  have created : ((Synchronizer.onStore (backend.createCase Sample.purchase)).run
      Sample.failedOnce).1 = .ok Sample.purchase := by decide +kernel
  have succeeded : ((Synchronizer.cycle backend Sample.config).run Sample.repaired).1 =
      .ok (.advanced 0 1 2 0) := by decide +kernel
  have tried : Tried Sample.config (.new Sample.early) [] Sample.failedOnce :=
    .failed .start (Action.eq_of_fst failed)
  have tried : Tried Sample.config (.new Sample.early) [Sample.purchase] Sample.repaired :=
    .made tried (Action.eq_of_fst created)
  have done := Action.eq_of_fst succeeded
  have same := retry_eq_single_cycle Sample.config tried done
  refine ⟨tried, _, done, ?_⟩
  exact same

end CaseRegistry
