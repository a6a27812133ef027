import CaseRegistry.Proofs.Sync.Cycle
import CaseRegistry.Proofs.Sync.Routine

/-! Synchronizers of different nodes over the same stores.

A cycle in steps calls the stores and dispatches operations one by one, and others may come in
between (`cycleInSteps`); without a break it is the cycle (`run_cycleInSteps`). Every step depends
on what its node sees of the stores: its own cases, of other cases that they are there and whose
they are, its stream, and the ledger (`Memory.Sight`). It writes cases of its node and its stream
and nothing else (`Memory.Confined`), and that is out of sight of a node with another stream. So
two synchronizers come to the same in whatever order their steps are taken
(`nodes_do_not_interfere`). -/
namespace CaseRegistry

/-! ### Cycles in steps -/

namespace Backend

variable {σ : Type} (b : Backend σ) (config : SyncConfig)

def dispatchInSteps (on : Timestamp) (tally : Tally) : List LedgerOperation → Routine σ Tally
  | [] => return tally
  | op :: rest => do
    let result ← Routine.once (b.dispatch config.nodeOwner op on)
    dispatchInSteps on (tally.count result) rest

def blockInSteps (height : Nat) : Routine σ BlockRecord := do
  let block ← Routine.once (b.fetchBlock height)
  let tally ← b.dispatchInSteps config block.timestamp .zero block.operations
  let record := ⟨height, block.timestamp, tally.applied, tally.skipped⟩
  Routine.once (b.recordBlock config.stream record)
  return record

def blocksInSteps (tally : Tally) : (height n : Nat) → Routine σ Tally
  | _, 0 => return tally
  | height, n + 1 => do
    let record ← b.blockInSteps config height
    blocksInSteps (tally.addRecord record) (height + 1) n

def startOverInSteps (checkpoint head : Nat) : Routine σ SyncOutcome := do
  Routine.once (b.discardRecords config.stream)
  Routine.once (b.deleteCheckpoint config.stream)
  return .reset checkpoint head

def advanceInSteps (checkpoint head : Nat) : Routine σ SyncOutcome := do
  let tally ← b.blocksInSteps config .zero (checkpoint + 1) (head - checkpoint)
  Routine.once (b.saveCheckpoint config.stream head)
  return .advanced checkpoint head tally.applied tally.skipped

/-- A cycle, with each call of the stores and each dispatch of an operation as a step. -/
def cycleInSteps : Routine σ SyncOutcome := do
  let head ← Routine.once b.headHeight
  let found ← Routine.once (b.findCheckpoint config.stream)
  let checkpoint := found.getD 0
  if head < checkpoint then b.startOverInSteps config checkpoint head
  else if checkpoint = head then return .upToDate head
  else b.advanceInSteps config checkpoint head

/-- Cycles one after the other, with what each came to. -/
def cycles : Nat → Action σ (List (Except Error SyncOutcome))
  | 0 => return []
  | n + 1 => do
    let result ← (b.syncToHead config).attempt
    let results ← cycles n
    return result :: results

/-- One more cycle is run on the stores that the others left. -/
theorem run_cycles_succ {n : Nat} {results : List (Except Error SyncOutcome)} {s s' : σ}
    (ran : (b.cycles config n).run s = (.ok results, s')) :
    (b.cycles config (n + 1)).run s =
      (.ok (results ++ [((b.syncToHead config).run s').1]), ((b.syncToHead config).run s').2) := by
  induction n generalizing s results with
  | zero =>
    cases ran
    rfl
  | succ n ih =>
    obtain ⟨result, s₁, first, ran⟩ := Action.run_bind_eq_ok.mp ran
    obtain ⟨rest, s₂, later, ran⟩ := Action.run_bind_eq_ok.mp ran
    cases ran
    rw [cycles, Action.run_bind_of_ok first, Action.run_bind_of_ok (ih later)]
    rfl

def cyclesInSteps : Nat → Routine σ (List (Except Error SyncOutcome))
  | 0 => return []
  | n + 1 => do
    let result ← (b.cycleInSteps config).attempt
    let results ← cyclesInSteps n
    return result :: results

theorem run_dispatchInSteps (on : Timestamp) (tally : Tally) (ops : List LedgerOperation) :
    (b.dispatchInSteps config on tally ops).run = b.dispatchAll config on tally ops := by
  induction ops generalizing tally with
  | nil => rfl
  | cons op rest ih => simp [dispatchInSteps, dispatchAll, ih]

theorem run_blockInSteps (height : Nat) :
    (b.blockInSteps config height).run = b.processBlock config height := by
  simp [blockInSteps, processBlock, run_dispatchInSteps]

theorem run_blocksInSteps (tally : Tally) (height n : Nat) :
    (b.blocksInSteps config tally height n).run = b.processFrom config tally height n := by
  induction n generalizing tally height with
  | zero => rfl
  | succ n ih => simp [blocksInSteps, processFrom, run_blockInSteps, ih]

/-- A cycle in steps is the cycle, if nobody comes in between. -/
theorem run_cycleInSteps : (b.cycleInSteps config).run = b.syncToHead config := by
  have start : ∀ checkpoint head, (b.startOverInSteps config checkpoint head).run =
      b.startOver config checkpoint head := by
    simp [startOverInSteps, startOver]
  have ahead : ∀ checkpoint head, (b.advanceInSteps config checkpoint head).run =
      b.advance config checkpoint head := by
    simp [advanceInSteps, advance, run_blocksInSteps]
  unfold cycleInSteps syncToHead
  simp only [Routine.run_bind, Routine.run_once]
  congr 1
  funext head
  congr 1
  funext found
  split
  · exact start _ _
  · split
    · rfl
    · exact ahead _ _

theorem run_cyclesInSteps (n : Nat) : (b.cyclesInSteps config n).run = b.cycles config n := by
  induction n with
  | zero => rfl
  | succ n ih => simp [cyclesInSteps, cycles, run_cycleInSteps, ih]

end Backend

/-! ### What a node sees -/

/-- What a node sees of a case: which one it is, whose it is, and all of it if it is the node's. -/
def Case.seenBy (node : Identity) (c : Case) : CaseId × Identity × Option Case :=
  (c.id, c.owner, if c.owner = node then some c else none)

namespace Repository

variable {r r' : Repository} {node who : Identity}

/-- What a node sees of the cases in listing order. -/
def seenBy (r : Repository) (node : Identity) : List (CaseId × Identity × Option Case) :=
  r.cases.map (Case.seenBy node)

theorem find?_seenBy (r : Repository) (node : Identity) (id : CaseId) :
    (r.seenBy node).find? (·.1 = id) = (r.find? id).map (Case.seenBy node) :=
  List.find?_map

/-- What a node rules depends on what it sees. -/
theorem ruling_congr (same : r.seenBy node = r'.seenBy node) (op : LedgerOperation) (on : Timestamp) :
    r.ruling node op on = r'.ruling node op on := by
  have target : ∀ kind id, Ruling.onTarget node kind op on id (r.find? id) =
      Ruling.onTarget node kind op on id (r'.find? id) := by
    intro kind id
    have found := congrArg (List.find? (·.1 = id)) same
    rw [find?_seenBy, find?_seenBy] at found
    cases h : r.find? id with
    | none =>
      rw [h, Option.map_none, eq_comm, Option.map_eq_none_iff] at found
      rw [found]
    | some c =>
      rw [h, Option.map_some, eq_comm, Option.map_eq_some_iff] at found
      obtain ⟨c', h', seen⟩ := found
      obtain ⟨-, owner, content⟩ := Prod.mk.inj seen |>.imp_right Prod.mk.inj
      rw [h']
      simp only [Ruling.onTarget, Case.ruling]
      by_cases mine : c.owner = node
      · rw [if_pos mine, if_pos (owner.trans mine)] at content
        rw [Option.some.inj content]
      · rw [if_neg mine, if_neg (owner ▸ mine)]
  unfold ruling
  split
  · rfl
  · rfl
  · exact target _ _

theorem place_seenBy (c : Case) {cases cases' : List Case}
    (same : cases.map (Case.seenBy node) = cases'.map (Case.seenBy node)) :
    (place c cases).map (Case.seenBy node) = (place c cases').map (Case.seenBy node) := by
  induction cases generalizing cases' with
  | nil =>
    obtain rfl : cases' = [] := by simpa using same.symm
    rfl
  | cons other rest ih =>
    cases cases' with
    | nil => simp at same
    | cons other' rest' =>
      obtain ⟨first, others⟩ := List.cons.inj same
      have id : other'.id = other.id := congrArg Prod.fst first.symm
      by_cases here : other.id = c.id
      · simp [place, here, id, others]
      · simp [place, here, id, first, ih others]

/-- A node sees its own cases as they are. -/
theorem getElem?_of_seenBy {n : Nat} {c : Case} (same : r.seenBy c.owner = r'.seenBy c.owner)
    (there : r.cases[n]? = some c) : r'.cases[n]? = some c := by
  have found := congrArg (·[n]?) same
  simp only [seenBy, List.getElem?_map, there, Option.map_some] at found
  obtain ⟨c', there', seen⟩ := Option.map_eq_some_iff.mp found.symm
  obtain ⟨-, owner, content⟩ := Prod.mk.inj seen |>.imp_right Prod.mk.inj
  rw [if_pos owner, if_pos rfl] at content
  rw [there', Option.some.inj content]

/-- What all nodes see together is all there is. -/
theorem cases_eq_of_seenBy (same : ∀ who, r.seenBy who = r'.seenBy who) : r.cases = r'.cases :=
  List.ext_getElem? fun _ => Option.ext fun _ =>
    ⟨getElem?_of_seenBy (same _), getElem?_of_seenBy (same _).symm⟩

end Repository

/-! ### What a node writes -/

/-- A case of a node, or one that is left as it is. -/
structure Case.LeftBy (node : Identity) (c c' : Case) : Prop where
  id : c'.id = c.id
  owner : c'.owner = c.owner
  other : c.owner ≠ node → c' = c

theorem Case.LeftBy.refl (node : Identity) (c : Case) : c.LeftBy node c := ⟨rfl, rfl, fun _ => rfl⟩

theorem Case.LeftBy.trans {node : Identity} {c c' c'' : Case} (h : c.LeftBy node c')
    (h' : c'.LeftBy node c'') : c.LeftBy node c'' where
  id := h'.id.trans h.id
  owner := h'.owner.trans h.owner
  other foreign := (h'.other (h.owner ▸ foreign)).trans (h.other foreign)

namespace Repository

variable {r r' r'' : Repository} {node who : Identity}

/-- Only cases of the node were written over and saved. -/
structure Confined (node : Identity) (r r' : Repository) : Prop where
  cases : List.Forall₂ (Case.LeftBy node) r.cases r'.cases
  saves : ∃ saved, r'.saves = r.saves ++ saved ∧ ∀ save ∈ saved, r.ownerOf? save.1 = some node

theorem Confined.ownerOf?_eq (h : Confined node r r') : r'.ownerOf? = r.ownerOf? := by
  have left := h.cases
  funext id
  unfold ownerOf? find?
  generalize r.cases = cases, r'.cases = cases' at left ⊢
  induction left with
  | nil => rfl
  | cons left _ ih =>
    rw [List.find?_cons, List.find?_cons, left.id]
    split
    · exact congrArg some left.owner
    · exact ih

/-- Nobody else sees what the node writes. -/
theorem Confined.seenBy_eq (h : Confined node r r') (other : who ≠ node) : r'.seenBy who = r.seenBy who := by
  have left := h.cases
  unfold seenBy
  generalize r.cases = cases, r'.cases = cases' at left ⊢
  induction left with
  | nil => rfl
  | @cons c c' _ _ left _ ih =>
    have seen : c'.seenBy who = c.seenBy who := by
      by_cases mine : c.owner = who
      · rw [left.other (mine ▸ other)]
      · simp [Case.seenBy, left.id, left.owner, mine]
    rw [List.map_cons, List.map_cons, seen, ih]

theorem Confined.refl (node : Identity) (r : Repository) : Confined node r r where
  cases := List.forall₂_same.mpr fun c _ => .refl node c
  saves := ⟨[], (List.append_nil _).symm, nofun⟩

theorem Confined.trans (h : Confined node r r') (h' : Confined node r' r'') : Confined node r r'' where
  cases := by
    have first := h.cases
    have second := h'.cases
    generalize r.cases = cases, r'.cases = cases', r''.cases = last at first second ⊢
    induction first generalizing last with
    | nil =>
      cases second
      exact .nil
    | cons left _ ih =>
      cases second with
      | cons left' rest => exact .cons (left.trans left') (ih _ rest)
  saves := by
    obtain ⟨saved, grown, mine⟩ := h.saves
    obtain ⟨saved', grown', mine'⟩ := h'.saves
    refine ⟨saved ++ saved', by rw [grown', grown, List.append_assoc], fun save mem => ?_⟩
    rcases List.mem_append.mp mem with mem | mem
    · exact mine save mem
    · rw [← h.ownerOf?_eq]
      exact mine' save mem

theorem forall₂_place {c after : Case} {cases : List Case}
    (found : cases.find? (·.id = after.id) = some c) (left : c.LeftBy node after) :
    List.Forall₂ (Case.LeftBy node) cases (place after cases) := by
  induction cases with
  | nil => cases found
  | cons other rest ih =>
    by_cases here : other.id = after.id
    · obtain rfl : other = c := by simpa [here] using found
      rw [place, if_pos here]
      exact .cons left (List.forall₂_same.mpr fun c _ => .refl node c)
    · rw [place, if_neg here]
      exact .cons (.refl node other) (ih (by simpa [here] using found))

/-- A ruling that stamps a case stamps one of the node. -/
theorem confined_of_ruling {op : LedgerOperation} {on : Timestamp} {id : CaseId} {after : Case}
    {changes : ChangeSet} (h : r.ruling node op on = .stamp id after changes) :
    Confined node r (r.save after changes) := by
  obtain ⟨stamp, c, _, found, mine, ran⟩ := ruling_eq_stamp.mp h
  have continues := (Case.stamp_ok ran).1
  obtain rfl : after.id = id := continues.id.trans (id_of_find? found)
  refine ⟨forall₂_place found ⟨continues.id, continues.owner, fun foreign => absurd mine foreign⟩,
    [(after.id, changes)], rfl, ?_⟩
  simp [ownerOf?_of_find? found, mine]

end Repository

namespace Memory

variable {config other : SyncConfig} {m m' m'' : Memory}

/-- What a synchronizer sees of the stores. -/
structure Sight where
  head : Nat
  blocks : List LedgerBlock
  cases : List (CaseId × Identity × Option Case)
  checkpoint : Option Nat
  records : List BlockRecord

def sight (config : SyncConfig) (m : Memory) : Sight where
  head := m.chain.head
  blocks := m.chain.blocks
  cases := m.repository.seenBy config.nodeOwner
  checkpoint := m.checkpoints.height? config.stream
  records := m.journal.records config.stream

/-- Only cases of the node, the stream, and the note of what the ledger served were written. -/
structure Confined (config : SyncConfig) (m m' : Memory) : Prop where
  head : m'.chain.head = m.chain.head
  blocks : m'.chain.blocks = m.chain.blocks
  repository : m.repository.Confined config.nodeOwner m'.repository
  checkpoints : ∀ stream, stream ≠ config.stream →
    m'.checkpoints.height? stream = m.checkpoints.height? stream
  records : ∀ stream, stream ≠ config.stream → m'.journal.records stream = m.journal.records stream

theorem Confined.refl (config : SyncConfig) (m : Memory) : Confined config m m :=
  ⟨rfl, rfl, .refl _ _, fun _ _ => rfl, fun _ _ => rfl⟩

theorem Confined.trans (h : Confined config m m') (h' : Confined config m' m'') :
    Confined config m m'' where
  head := h'.head.trans h.head
  blocks := h'.blocks.trans h.blocks
  repository := h.repository.trans h'.repository
  checkpoints stream ne := (h'.checkpoints stream ne).trans (h.checkpoints stream ne)
  records stream ne := (h'.records stream ne).trans (h.records stream ne)

/-- A synchronizer of another node with another stream sees nothing of it. -/
theorem Confined.sight_eq (h : Confined config m m') (owners : other.nodeOwner ≠ config.nodeOwner)
    (streams : other.stream ≠ config.stream) : m'.sight other = m.sight other := by
  unfold sight
  rw [h.head, h.blocks, h.repository.seenBy_eq owners, h.checkpoints _ streams, h.records _ streams]

/-! ### Steps -/

/-- An act of a synchronizer. -/
structure ActsFor (config : SyncConfig) (α : Type) (a : Action Memory α) : Prop where
  within : a.Within (sight config)
  confined : a.Always (Confined config)

theorem ActsFor.attempt {α : Type} {a : Action Memory α} (h : ActsFor config α a) :
    ActsFor config _ a.attempt :=
  ⟨h.within.attempt, fun m => h.confined m⟩

theorem actsFor_headHeight : ActsFor config _ backend.headHeight where
  within _ _ same := ⟨congrArg (fun seen : Sight => Except.ok seen.head) same, same⟩
  confined m := .refl config m

theorem actsFor_findCheckpoint : ActsFor config _ (backend.findCheckpoint config.stream) where
  within _ _ same := ⟨congrArg (fun seen : Sight => Except.ok seen.checkpoint) same, same⟩
  confined m := .refl config m

theorem actsFor_modify {f : Memory → Memory} {g : Sight → Sight}
    (seen : ∀ m, (f m).sight config = g (m.sight config)) (confined : ∀ m, Confined config m (f m)) :
    ActsFor config _ (Action.modify f) where
  within m m' same := ⟨rfl, by rw [Action.run_modify, Action.run_modify, seen, seen, same]⟩
  confined := confined

theorem actsFor_recordBlock (record : BlockRecord) :
    ActsFor config _ (backend.recordBlock config.stream record) :=
  actsFor_modify
    (g := fun seen =>
      { seen with records := seen.records.filter (·.height ≠ record.height) ++ [record] })
    (fun m => by simp [sight, Journal.records_record])
    fun m => { Confined.refl config m with
      records := fun stream ne => m.journal.records_record_of_ne record ne }

theorem actsFor_discardRecords : ActsFor config _ (backend.discardRecords config.stream) :=
  actsFor_modify (g := fun seen => { seen with records := [] })
    (fun m => by simp [sight, Journal.records_discard])
    fun m => { Confined.refl config m with
      records := fun stream ne => by simp [Journal.records_discard, ne] }

theorem actsFor_saveCheckpoint (height : Nat) :
    ActsFor config _ (backend.saveCheckpoint config.stream height) :=
  actsFor_modify (g := fun seen => { seen with checkpoint := some height })
    (fun m => by simp [sight, Checkpoints.height?_save])
    fun m => { Confined.refl config m with
      checkpoints := fun stream ne => by simp [Checkpoints.height?_save, ne] }

theorem actsFor_deleteCheckpoint : ActsFor config _ (backend.deleteCheckpoint config.stream) :=
  actsFor_modify (g := fun seen => { seen with checkpoint := none })
    (fun m => by simp [sight, Checkpoints.height?_delete])
    fun m => { Confined.refl config m with
      checkpoints := fun stream ne => by simp [Checkpoints.height?_delete, ne] }

theorem run_fetchBlock_eq (height : Nat) (m : Memory) :
    (backend.fetchBlock height).run m =
      if m.chain.head < height then
        (.error (.ledger s!"block {height} is above head {m.chain.head}"), m)
      else (.ok (m.chain.blockAt height),
        { m with chain := { m.chain with fetched := m.chain.fetched ++ [height] } }) := by
  show Action.run (Action.step _) m = _
  rw [Action.run_step, Chain.fetch]
  by_cases above : m.chain.head < height
  · rw [if_pos above, if_pos above]
    rfl
  · rw [if_neg above, if_neg above]
    rfl

theorem actsFor_fetchBlock (height : Nat) : ActsFor config _ (backend.fetchBlock height) where
  within m m' same := by
    have head : m.chain.head = m'.chain.head := congrArg Sight.head same
    have block := congrFun (Chain.blockAt_congr (congrArg Sight.blocks same)) height
    rw [run_fetchBlock_eq, run_fetchBlock_eq, head, block]
    split
    · exact ⟨rfl, same⟩
    · exact ⟨rfl, same⟩
  confined m := by
    rw [run_fetchBlock_eq]
    split
    · exact .refl config m
    · exact { Confined.refl config m with }

theorem actsFor_dispatch (op : LedgerOperation) (on : Timestamp) :
    ActsFor config _ (backend.dispatch config.nodeOwner op on) where
  within m m' same := by
    have cases : m.repository.seenBy config.nodeOwner = m'.repository.seenBy config.nodeOwner :=
      congrArg Sight.cases same
    rw [run_dispatch, run_dispatch, Repository.ruling_congr cases]
    cases m'.repository.ruling config.nodeOwner op on with
    | refuse e => exact ⟨rfl, same⟩
    | pass reason => exact ⟨rfl, same⟩
    | stamp id after changes =>
      refine ⟨rfl, ?_⟩
      show { m.sight config with cases := (m.repository.save after changes).seenBy config.nodeOwner } =
        { m'.sight config with cases := (m'.repository.save after changes).seenBy config.nodeOwner }
      rw [same]
      exact congrArg (fun cases => { m'.sight config with cases }) (Repository.place_seenBy after cases)
  confined m := by
    rw [run_dispatch]
    cases ruled : m.repository.ruling config.nodeOwner op on with
    | refuse e => exact .refl config m
    | pass reason => exact .refl config m
    | stamp id after changes =>
      exact { Confined.refl config m with repository := Repository.confined_of_ruling ruled }

section
open Routine (each_once each_pure)

theorem each_dispatchInSteps (on : Timestamp) (tally : Tally) (ops : List LedgerOperation) :
    (backend.dispatchInSteps config on tally ops).Each (ActsFor config) := by
  induction ops generalizing tally with
  | nil => exact each_pure tally
  | cons op rest ih => exact (each_once (actsFor_dispatch op on)).bind fun _ => ih _

theorem each_blocksInSteps (tally : Tally) (height n : Nat) :
    (backend.blocksInSteps config tally height n).Each (ActsFor config) := by
  induction n generalizing tally height with
  | zero => exact each_pure tally
  | succ n ih =>
    refine Routine.Each.bind ?_ fun record => ih _ _
    refine (each_once (actsFor_fetchBlock height)).bind fun block => ?_
    refine (each_dispatchInSteps _ _ _).bind fun tally => ?_
    exact (each_once (actsFor_recordBlock _)).bind fun _ => each_pure _

theorem each_cycleInSteps : (backend.cycleInSteps config).Each (ActsFor config) := by
  refine (each_once actsFor_headHeight).bind fun head => ?_
  refine (each_once actsFor_findCheckpoint).bind fun found => ?_
  dsimp only
  split
  · refine (each_once actsFor_discardRecords).bind fun _ => ?_
    exact (each_once actsFor_deleteCheckpoint).bind fun _ => each_pure _
  · split
    · exact each_pure _
    · refine (each_blocksInSteps _ _ _).bind fun tally => ?_
      exact (each_once (actsFor_saveCheckpoint head)).bind fun _ => each_pure _

/-- Every step that the cycles of a synchronizer consist of is an act of the synchronizer. -/
theorem each_cyclesInSteps (n : Nat) : (backend.cyclesInSteps config n).Each (ActsFor config) := by
  induction n with
  | zero => exact each_pure _
  | succ n ih =>
    exact (each_cycleInSteps.attempt .attempt).bind fun result => ih.bind fun results => each_pure _

end

/-! ### Two nodes -/

theorem confined_syncToHead (config : SyncConfig) (m : Memory) :
    Confined config m ((backend.syncToHead config).run m).2 := by
  rw [← Backend.run_cycleInSteps]
  exact (each_cycleInSteps.mono ActsFor.confined).always (.refl config) .trans m

variable {a b : SyncConfig}

theorem apart_cyclesInSteps (owners : a.nodeOwner ≠ b.nodeOwner) (streams : a.stream ≠ b.stream)
    (n k : Nat) : Routine.Apart (sight a) (sight b) (backend.cyclesInSteps a n)
      (backend.cyclesInSteps b k) where
  left := (each_cyclesInSteps n).mono ActsFor.within
  sparesRight := (each_cyclesInSteps n).mono fun acts m =>
    (acts.confined m).sight_eq owners.symm streams.symm
  right := (each_cyclesInSteps k).mono ActsFor.within
  sparesLeft := (each_cyclesInSteps k).mono fun acts m => (acts.confined m).sight_eq owners streams

/-- Nothing was written but what one of two synchronizers sees. -/
structure SparesThird (a b : SyncConfig) (m m' : Memory) : Prop where
  cases : ∀ who, who ≠ a.nodeOwner → who ≠ b.nodeOwner →
    m'.repository.seenBy who = m.repository.seenBy who
  checkpoints : ∀ stream, stream ≠ a.stream → stream ≠ b.stream →
    m'.checkpoints.height? stream = m.checkpoints.height? stream
  records : ∀ stream, stream ≠ a.stream → stream ≠ b.stream →
    m'.journal.records stream = m.journal.records stream

namespace SparesThird

theorem refl (a b : SyncConfig) (m : Memory) : SparesThird a b m m :=
  ⟨fun _ _ _ => rfl, fun _ _ _ => rfl, fun _ _ _ => rfl⟩

theorem trans (h : SparesThird a b m m') (h' : SparesThird a b m' m'') : SparesThird a b m m'' where
  cases who hne hne' := (h'.cases who hne hne').trans (h.cases who hne hne')
  checkpoints stream hne hne' := (h'.checkpoints stream hne hne').trans (h.checkpoints stream hne hne')
  records stream hne hne' := (h'.records stream hne hne').trans (h.records stream hne hne')

theorem symm (h : SparesThird a b m m') : SparesThird b a m m' where
  cases who hne hne' := h.cases who hne' hne
  checkpoints stream hne hne' := h.checkpoints stream hne' hne
  records stream hne hne' := h.records stream hne' hne

theorem of_confined (h : Confined a m m') : SparesThird a b m m' where
  cases _ hne _ := h.repository.seenBy_eq hne
  checkpoints stream hne _ := h.checkpoints stream hne
  records stream hne _ := h.records stream hne

theorem weave (a b : SyncConfig) (n k : Nat) (schedule : List Routine.Side) (m : Memory) :
    SparesThird a b m
      (Routine.weave (backend.cyclesInSteps a n) (backend.cyclesInSteps b k) schedule m).2 :=
  Routine.weave_always (SparesThird.refl a b) SparesThird.trans
    ((each_cyclesInSteps n).mono fun acts m => .of_confined (acts.confined m))
    ((each_cyclesInSteps k).mono fun acts m => (SparesThird.of_confined (acts.confined m)).symm)
    schedule m

end SparesThird

/-- The same cases, and in every stream the same checkpoint and the same records. -/
structure Alike (m m' : Memory) : Prop where
  cases : m.repository.cases = m'.repository.cases
  checkpoints : ∀ stream, m.checkpoints.height? stream = m'.checkpoints.height? stream
  records : ∀ stream, m.journal.records stream = m'.journal.records stream

/-- What two synchronizers see, and what they leave alone, is all there is. -/
theorem alike_of_sights {start : Memory} (third : SparesThird a b start m)
    (third' : SparesThird a b start m') (left : m.sight a = m'.sight a)
    (right : m.sight b = m'.sight b) : Alike m m' where
  cases := by
    refine Repository.cases_eq_of_seenBy fun who => ?_
    by_cases ofLeft : who = a.nodeOwner
    · exact ofLeft ▸ congrArg Sight.cases left
    · by_cases ofRight : who = b.nodeOwner
      · exact ofRight ▸ congrArg Sight.cases right
      · exact (third.cases who ofLeft ofRight).trans (third'.cases who ofLeft ofRight).symm
  checkpoints stream := by
    by_cases ofLeft : stream = a.stream
    · exact ofLeft ▸ congrArg Sight.checkpoint left
    · by_cases ofRight : stream = b.stream
      · exact ofRight ▸ congrArg Sight.checkpoint right
      · exact (third.checkpoints stream ofLeft ofRight).trans
          (third'.checkpoints stream ofLeft ofRight).symm
  records stream := by
    by_cases ofLeft : stream = a.stream
    · exact ofLeft ▸ congrArg Sight.records left
    · by_cases ofRight : stream = b.stream
      · exact ofRight ▸ congrArg Sight.records right
      · exact (third.records stream ofLeft ofRight).trans (third'.records stream ofLeft ofRight).symm

/-- Two synchronizers of different nodes with different streams run cycles over the same stores, taking
turns in any way. No step of either writes over or saves a case of anybody but its node. Each cycle
comes to what it comes to if one of the two runs all of its cycles before the other begins,
whichever of them that is, and so do the cases, the checkpoints and the journal. -/
theorem nodes_do_not_interfere (owners : a.nodeOwner ≠ b.nodeOwner) (streams : a.stream ≠ b.stream)
    (n k : Nat) (schedule : List Routine.Side) (m : Memory) :
    let ofA := backend.cyclesInSteps a n
    let ofB := backend.cyclesInSteps b k
    let woven := Routine.weave ofA ofB schedule m
    let beforeB := (backend.cycles a n).run m
    let afterA := (backend.cycles b k).run beforeB.2
    let beforeA := (backend.cycles b k).run m
    let afterB := (backend.cycles a n).run beforeA.2
    (∀ config, Action.Always (Confined config) (backend.syncToHead config)) ∧
      ofA.Each (fun _ act => act.Always (Confined a)) ∧
      ofB.Each (fun _ act => act.Always (Confined b)) ∧
      woven.1 = (beforeB.1, afterA.1) ∧ Alike woven.2 afterA.2 ∧
      woven.1 = (afterB.1, beforeA.1) ∧ Alike woven.2 afterB.2 := by
  intro ofA ofB woven beforeB afterA beforeA afterB
  have apart := apart_cyclesInSteps owners streams n k
  have apart' := apart_cyclesInSteps owners.symm streams.symm k n
  obtain ⟨results, left, right⟩ := apart.weave_eq schedule m
  -- Running one after the other is taking turns by the empty schedule.
  have one : Routine.weave ofA ofB [] m = ((beforeB.1, afterA.1), afterA.2) := by
    simp only [ofA, ofB, Routine.weave, Backend.run_cyclesInSteps]
    rfl
  have other : Routine.weave ofB ofA [] m = ((beforeA.1, afterB.1), afterB.2) := by
    simp only [ofA, ofB, Routine.weave, Backend.run_cyclesInSteps]
    rfl
  obtain ⟨results₁, left₁, right₁⟩ := apart.weave_eq [] m
  obtain ⟨results₂, right₂, left₂⟩ := apart'.weave_eq [] m
  have third := SparesThird.weave a b n k schedule m
  have third₁ := SparesThird.weave a b n k [] m
  have third₂ := (SparesThird.weave b a k n [] m).symm
  rw [one] at results₁ left₁ right₁ third₁
  rw [other] at results₂ left₂ right₂ third₂
  refine ⟨confined_syncToHead, (each_cyclesInSteps n).mono ActsFor.confined,
    (each_cyclesInSteps k).mono ActsFor.confined, results.trans results₁.symm,
    alike_of_sights third third₁ (left.trans left₁.symm) (right.trans right₁.symm), ?_,
    alike_of_sights third third₂ (left.trans left₂.symm) (right.trans right₂.symm)⟩
  exact results.trans (congrArg Prod.swap results₂).symm

end Memory

/-! ### A second node, for an instance -/

namespace Sample

/-- A second synchronizer, of another node. -/
def branchConfig : SyncConfig := ⟨"branch", ⟨"branch"⟩, 6000⟩

def leaseId : CaseId := ⟨⟨List.replicate 16 17, rfl⟩⟩

/-- A case of the other node. -/
def lease : Case := { sale with id := leaseId, owner := ⟨"branch"⟩ }

def closingLease : LedgerOperation :=
  .new "loc.close" (.object [("loc_id", .string "11111111-1111-1111-1111-111111111111")])

/-- The sale and the lease, and a ledger that closes first one and then the other. -/
def sharedMemory : Memory where
  repository := (Repository.empty.insert sale).insert lease
  checkpoints := .empty
  journal := .empty
  chain := (Chain.empty.push ⟨1, .epoch, [closing]⟩).push ⟨2, .epoch, [closingLease]⟩

def turns : List Routine.Side :=
  [.left, .left, .right, .left, .right, .left, .right, .right, .left, .left]

end Sample

theorem Memory.nodes_of_sample :
    let woven := Routine.weave (backend.cyclesInSteps Sample.config 2)
      (backend.cyclesInSteps Sample.branchConfig 1) Sample.turns Sample.sharedMemory
    let before := (backend.cycles Sample.config 2).run Sample.sharedMemory
    let after := (backend.cycles Sample.branchConfig 1).run before.2
    Sample.config.nodeOwner ≠ Sample.branchConfig.nodeOwner ∧
      Sample.config.stream ≠ Sample.branchConfig.stream ∧
      woven.1 = (.ok [.ok (.advanced 0 2 1 1), .ok (.upToDate 2)], .ok [.ok (.advanced 0 2 1 1)]) ∧
      woven.1 = (before.1, after.1) ∧ Alike woven.2 after.2 := by
  have owners : Sample.config.nodeOwner ≠ Sample.branchConfig.nodeOwner := by decide
  have streams : Sample.config.stream ≠ Sample.branchConfig.stream := by decide
  obtain ⟨_, _, _, results, alike, _⟩ :=
    nodes_do_not_interfere owners streams 2 1 Sample.turns Sample.sharedMemory
  exact ⟨owners, streams, by decide +kernel, results, alike⟩

end CaseRegistry
