import CaseRegistry.Proofs.Sync.Lasting
import Mathlib.Data.List.Forall2

/-! Stamps under concurrent edits.

Nothing is locked between the loading of a case and its saving. A local call that loaded a
case before a cycle stamped it, and saves its own copy after that, takes the stamp away,
and no later cycle brings it back; and an item that the ledger has acknowledged and never
confirmed can still be removed (`stamps_lost`). Nothing else takes a stamp away: whatever
the order of steps, a stamp of a cycle that came through is in the stored case then and
ever after, if no local call saves a copy across its saving and if it does not
acknowledge an item which is not confirmed (`stamps_survive`). A cycle saves a case of its
node once for each stamp it has for it, in order (`Handled`), and what it saved lasts by
`Shared.Coherent`. -/
namespace CaseRegistry.Shared

variable {s s' s'' : Shared} {id : CaseId} {node : Identity} {config : SyncConfig}

/-- The synchronizer has handled events: every case of the node was saved once for each stamp that
the events have for it, in order and with that stamp. -/
structure Handled (node : Identity) (events : List LedgerEvent) (s s' : Shared) : Prop
    extends Proceeds s s' where
  stamps : s.Coherent → ∀ id, s.memory.repository.ownerOf? id = some node → ∃ saved,
    s'.stamped id = s.stamped id ++ saved ∧
      List.Forall₂ (fun c stamp => c.Bears stamp.1 stamp.2) saved (events.filterMap (·.stampFor id))

namespace Handled

variable {events later : List LedgerEvent} {e : LedgerEvent}

theorem of_quiet (quiet : Quiet s s') : Handled node [] s s' where
  toProceeds := quiet.toProceeds
  stamps _ id _ := ⟨[], by rw [quiet.unsaved, List.append_nil], .nil⟩

/-- Passing over an event is right if it has no stamp for a case of the node. -/
theorem of_pass (quiet : Quiet s s')
    (unnamed : s.Coherent → ∀ id, s.memory.repository.ownerOf? id = some node → e.stampFor id = none) :
    Handled node [e] s s' where
  toProceeds := quiet.toProceeds
  stamps h id mine := by
    refine ⟨[], by rw [quiet.unsaved, List.append_nil], ?_⟩
    simp only [List.filterMap_cons, unnamed h id mine, List.filterMap_nil]
    exact .nil

theorem of_saves {stamp : ChainStamp} (named : e.operation.stamp? = some (id, stamp))
    (saves : Saves id (stamp.apply e.on) s s') : Handled node [e] s s' where
  toProceeds := saves.proceeds fun _ _ _ ran => (Case.stamp_ok ran).1.weaken fun _ _ => trivial
  stamps _ other _ := by
    obtain ⟨⟨c, changes, c', ran, grown⟩, others⟩ :=
      saves.stamped_eq fun _ _ _ ran => (Case.stamp_ok ran).1.id
    by_cases same : other = id
    · subst same
      have stamped : e.stampFor other = some (stamp, e.on) := LedgerEvent.stampFor_eq_some.mpr ⟨named, rfl⟩
      refine ⟨[c'], grown, ?_⟩
      simp only [List.filterMap_cons, stamped, List.filterMap_nil]
      exact .cons (Case.stamp_ok ran).2.1 .nil
    · have unnamed : e.stampFor other = none := LedgerEvent.stampFor_eq_none.mpr fun stamp' hs => by
        have both := Option.some.inj (named.symm.trans hs)
        exact same (Prod.mk.inj both).1.symm
      refine ⟨[], by rw [others other same, List.append_nil], ?_⟩
      simp only [List.filterMap_cons, unnamed, List.filterMap_nil]
      exact .nil

theorem trans (h : Handled node events s s') (h' : Handled node later s' s'') :
    Handled node (events ++ later) s s'' where
  toProceeds := h.toProceeds.trans h'.toProceeds
  stamps coherent id mine := by
    obtain ⟨saved, grown, bear⟩ := h.stamps coherent id mine
    obtain ⟨saved', grown', bear'⟩ :=
      h'.stamps (h.coherent coherent) id ((congrFun (h.owners coherent) id).trans mine)
    refine ⟨saved ++ saved', by rw [grown', grown, List.append_assoc], ?_⟩
    rw [List.filterMap_append]
    exact List.rel_append bear bear'

theorem after_quiet (quiet : Quiet s s') (h : Handled node events s' s'') : Handled node events s s'' := by
  simpa using (of_quiet quiet).trans h

theorem before_quiet (h : Handled node events s s') (quiet : Quiet s' s'') : Handled node events s s'' := by
  simpa using h.trans (of_quiet quiet)

end Handled

/-! ### Operations -/

/-- How the dispatch of an event ends: it failed and no case was saved, or the event is handled. -/
inductive Dispatched (node : Identity) (e : LedgerEvent) (s : Shared) :
    Except Error DispatchResult × Shared → Prop where
  | failed {error : Error} {s' : Shared} : Quiet s s' → Dispatched node e s (.error error, s')
  | done {result : DispatchResult} {s' : Shared} : Handled node [e] s s' → Dispatched node e s (.ok result, s')

theorem Dispatched.after_quiet {e : LedgerEvent} {p : Except Error DispatchResult × Shared}
    (quiet : Quiet s s') (h : Dispatched node e s' p) : Dispatched node e s p := by
  cases h with
  | failed quiet' => exact .failed (quiet.trans quiet')
  | done handled => exact .done (handled.after_quiet quiet)

variable {kind : OperationKind} {op : LedgerOperation} {on : Timestamp}

theorem dispatched_stampCase (node : Identity) (on : Timestamp) (hd : op.demand = .ok (.stamp kind id))
    (s : Shared) : Dispatched node ⟨op, on⟩ s ((backend.stampCase kind op on id).run s) := by
  unfold Backend.stampCase
  rw [Action.run_bind, Action.run_ofExcept]
  cases ho : ChainStamp.ofOperation kind op with
  | error e => exact .failed (.refl s)
  | ok found =>
    cases found with
    | none =>
      refine .done (.of_pass (.refl s) fun _ other _ => LedgerEvent.stampFor_eq_none.mpr fun stamp hs => ?_)
      obtain ⟨kind', hd', ho'⟩ := LedgerOperation.stamp?_eq_some.mp hs
      obtain ⟨rfl, -⟩ := Demand.stamp.inj (Except.ok.inj (hd.symm.trans hd'))
      cases ho.symm.trans ho'
    | some stamp =>
      have named : op.stamp? = some (id, stamp) := LedgerOperation.stamp?_eq_some.mpr ⟨kind, hd, ho⟩
      show Dispatched node ⟨op, on⟩ s
        (Action.run (backend.mutate id (stamp.apply on) >>= fun _ => pure (DispatchResult.applied id)) s)
      rcases mutate_cases id (stamp.apply on) s with ⟨e, failed, quiet⟩ | ⟨c, done, saves⟩
      · rw [Action.run_bind_of_error (Action.eq_of_fst failed)]
        exact .failed quiet
      · rw [Action.run_bind_of_ok (Action.eq_of_fst done)]
        exact .done (.of_saves named saves)

theorem dispatched_dispatchNamed (node : Identity) (on : Timestamp)
    (hd : op.demand = .ok (.stamp kind id)) (s : Shared) :
    Dispatched node ⟨op, on⟩ s ((backend.dispatchNamed node kind op on id).run s) := by
  have quiet := quiet_findCase id s
  obtain ⟨e | found, s₁, ran⟩ : ∃ result s₁, (backend.findCase id).run s = (result, s₁) := ⟨_, _, rfl⟩
  all_goals
    unfold Backend.dispatchNamed
    rw [ran] at quiet
  · rw [Action.run_bind_of_error ran]
    exact .failed quiet
  · -- passing over is right as long as the case is not one of the node
    have pass : s₁.memory.repository.ownerOf? id ≠ some node → Handled node [⟨op, on⟩] s s₁ := fun foreign =>
      .of_pass quiet fun coherent other mine => LedgerEvent.stampFor_eq_none.mpr fun stamp hs => by
        obtain ⟨kind', hd', -⟩ := LedgerOperation.stamp?_eq_some.mp hs
        obtain ⟨-, rfl⟩ := Demand.stamp.inj (Except.ok.inj (hd.symm.trans hd'))
        exact foreign ((congrFun (quiet.owners coherent) id).trans mine)
    have owner : s₁.memory.repository.ownerOf? id = found.map Case.owner :=
      congrArg (Option.map Case.owner) (findCase_ok ran).symm
    rw [Action.run_bind_of_ok ran]
    cases found with
    | none =>
      by_cases tolerant : kind.targetPolicy = .tolerant
      · simp only [if_pos tolerant]
        exact .done (pass (owner ▸ (Option.some_ne_none node).symm))
      · simp only [if_neg tolerant]
        exact .failed quiet
    | some c =>
      by_cases mine : c.owner = node
      · simp only [if_pos mine]
        exact (dispatched_stampCase node on hd s₁).after_quiet quiet
      · simp only [if_neg mine]
        exact .done (pass (owner ▸ fun same => mine (Option.some.inj same)))

theorem dispatched_dispatch (node : Identity) (op : LedgerOperation) (on : Timestamp) (s : Shared) :
    Dispatched node ⟨op, on⟩ s ((backend.dispatch node op on).run s) := by
  rw [Backend.run_dispatch]
  split
  · exact .failed (.refl s)
  · next hd =>
    refine .done (.of_pass (.refl s) fun _ id _ => LedgerEvent.stampFor_eq_none.mpr fun stamp hs => ?_)
    obtain ⟨kind, hd', -⟩ := LedgerOperation.stamp?_eq_some.mp hs
    cases hd.symm.trans hd'
  · next hd => exact dispatched_dispatchNamed node on hd s

/-! ### Blocks and cycles -/

theorem Proceeds.of_quiet {α : Type} {a : Action Shared α} (h : Action.Always Quiet a) :
    Action.Always Proceeds a := fun s => (h s).toProceeds

theorem Proceeds.bind {α β : Type} {x : Action Shared α} {f : α → Action Shared β}
    (hx : Action.Always Proceeds x) (hf : ∀ a, Action.Always Proceeds (f a)) :
    Action.Always Proceeds (x >>= f) :=
  Action.Always.bind (R := Proceeds) Proceeds.trans hx hf

theorem Dispatched.proceeds {e : LedgerEvent} {p : Except Error DispatchResult × Shared}
    (h : Dispatched node e s p) : Proceeds s p.2 := by
  cases h with
  | failed quiet => exact quiet.toProceeds
  | done handled => exact handled.toProceeds

theorem always_proceeds_dispatchAll (config : SyncConfig) (on : Timestamp) (tally : Tally)
    (ops : List LedgerOperation) : Action.Always Proceeds (backend.dispatchAll config on tally ops) := by
  induction ops generalizing tally with
  | nil => exact .refl
  | cons op rest ih =>
    exact Proceeds.bind (fun s => (dispatched_dispatch config.nodeOwner op on s).proceeds) fun result => ih _

theorem dispatchAll_ok {tally total : Tally} {ops : List LedgerOperation}
    (h : (backend.dispatchAll config on tally ops).run s = (.ok total, s')) :
    Handled config.nodeOwner (ops.map (⟨·, on⟩)) s s' := by
  induction ops generalizing s tally with
  | nil =>
    obtain ⟨_, rfl⟩ := Prod.mk.inj h
    exact .of_quiet (.refl s)
  | cons op rest ih =>
    obtain ⟨result, s₁, ran, h⟩ := Action.run_bind_eq_ok.mp h
    have first := dispatched_dispatch config.nodeOwner op on s
    rw [ran] at first
    cases first with
    | done handled => exact handled.trans (ih h)

theorem quiet_recordBlock (stream : String) (record : BlockRecord) :
    Action.Always Quiet (backend.recordBlock stream record) :=
  quiet_call fun _ => ⟨rfl, rfl⟩

theorem always_proceeds_processBlock (config : SyncConfig) (height : Nat) :
    Action.Always Proceeds (backend.processBlock config height) := by
  refine Proceeds.bind (Proceeds.of_quiet (quiet_fetchBlock height)) fun block => ?_
  refine Proceeds.bind (always_proceeds_dispatchAll config _ _ _) fun tally => ?_
  exact Proceeds.bind (Proceeds.of_quiet (quiet_recordBlock _ _)) fun _ => .refl

theorem processBlock_ok {height : Nat} {record : BlockRecord}
    (h : (backend.processBlock config height).run s = (.ok record, s')) :
    Handled config.nodeOwner (s.memory.chain.blockAt height).events s s' := by
  obtain ⟨block, s₁, fetched, h⟩ := Action.run_bind_eq_ok.mp h
  obtain ⟨tally, s₂, dispatched, h⟩ := Action.run_bind_eq_ok.mp h
  obtain ⟨_, s₃, recorded, h⟩ := Action.run_bind_eq_ok.mp h
  obtain ⟨_, rfl⟩ := Prod.mk.inj h
  have before := quiet_fetchBlock height s
  have after := quiet_recordBlock config.stream ⟨height, block.timestamp, tally.applied, tally.skipped⟩ s₂
  rw [fetched] at before
  rw [recorded] at after
  rw [← fetchBlock_ok fetched]
  exact ((dispatchAll_ok dispatched).after_quiet before).before_quiet after

theorem always_proceeds_processFrom (config : SyncConfig) (tally : Tally) (height n : Nat) :
    Action.Always Proceeds (backend.processFrom config tally height n) := by
  induction n generalizing tally height with
  | zero => exact .refl
  | succ n ih =>
    exact Proceeds.bind (always_proceeds_processBlock config height) fun record => ih _ _

theorem processFrom_ok {tally total : Tally} {height n : Nat}
    (h : (backend.processFrom config tally height n).run s = (.ok total, s')) :
    Handled config.nodeOwner (s.memory.chain.events height n) s s' := by
  induction n generalizing s tally height with
  | zero =>
    obtain ⟨_, rfl⟩ := Prod.mk.inj h
    exact .of_quiet (.refl s)
  | succ n ih =>
    obtain ⟨record, s₁, ran, h⟩ := Action.run_bind_eq_ok.mp h
    have first := processBlock_ok ran
    rw [Chain.events_succ]
    rw [← Chain.events_congr first.blocks]
    exact first.trans (ih h)

theorem quiet_headHeight : Action.Always Quiet backend.headHeight :=
  quiet_call fun _ => ⟨rfl, rfl⟩

theorem quiet_findCheckpoint (stream : String) : Action.Always Quiet (backend.findCheckpoint stream) :=
  quiet_call fun _ => ⟨rfl, rfl⟩

theorem quiet_discardRecords (stream : String) : Action.Always Quiet (backend.discardRecords stream) :=
  quiet_call fun _ => ⟨rfl, rfl⟩

theorem quiet_deleteCheckpoint (stream : String) : Action.Always Quiet (backend.deleteCheckpoint stream) :=
  quiet_call fun _ => ⟨rfl, rfl⟩

theorem quiet_saveCheckpoint (stream : String) (height : Nat) :
    Action.Always Quiet (backend.saveCheckpoint stream height) :=
  quiet_call fun _ => ⟨rfl, rfl⟩

theorem always_proceeds_syncToHead (config : SyncConfig) :
    Action.Always Proceeds (backend.syncToHead config) := by
  refine Proceeds.bind (Proceeds.of_quiet quiet_headHeight) fun head => ?_
  refine Proceeds.bind (Proceeds.of_quiet (quiet_findCheckpoint _)) fun found => ?_
  dsimp only
  split
  · refine Proceeds.bind (Proceeds.of_quiet (quiet_discardRecords _)) fun _ => ?_
    exact Proceeds.bind (Proceeds.of_quiet (quiet_deleteCheckpoint _)) fun _ => .refl
  · split
    · exact .refl
    · refine Proceeds.bind (always_proceeds_processFrom config _ _ _) fun _ => ?_
      exact Proceeds.bind (Proceeds.of_quiet (quiet_saveCheckpoint _ _)) fun _ => .refl

/-- A cycle that comes through has handled all that is on the ledger between the two checkpoints. -/
theorem syncToHead_ok {checkpoint head applied skipped : Nat}
    (h : (backend.syncToHead config).run s = (.ok (.advanced checkpoint head applied skipped), s')) :
    Handled config.nodeOwner (s.memory.chain.events (checkpoint + 1) (head - checkpoint)) s s' := by
  obtain ⟨height, s₁, asked, h⟩ := Action.run_bind_eq_ok.mp h
  obtain ⟨found, s₂, looked, h⟩ := Action.run_bind_eq_ok.mp h
  have before := quiet_headHeight s
  have before' := quiet_findCheckpoint config.stream s₁
  rw [asked] at before
  rw [looked] at before'
  replace before := before.trans before'
  dsimp only at h
  split at h
  · obtain ⟨_, _, _, h⟩ := Action.run_bind_eq_ok.mp h
    obtain ⟨_, _, _, h⟩ := Action.run_bind_eq_ok.mp h
    cases (Prod.mk.inj h).1
  · split at h
    · cases (Prod.mk.inj h).1
    · obtain ⟨total, s₃, ran, h⟩ := Action.run_bind_eq_ok.mp h
      obtain ⟨_, s₄, saved, h⟩ := Action.run_bind_eq_ok.mp h
      obtain ⟨same, rfl⟩ := Prod.mk.inj h
      cases same
      have after := quiet_saveCheckpoint config.stream head s₃
      rw [saved] at after
      have handled := (processFrom_ok ran).before_quiet after
      rw [Chain.events_congr before.blocks] at handled
      exact handled.after_quiet before

/-! ### Histories -/

theorem evolves_move (config : SyncConfig) (s : Shared) (move : Move) : Evolves s (s.move config move) := by
  cases move with
  | cycle turns =>
    exact (quiet_turns s turns).toEvolves.trans (always_proceeds_syncToHead config _).toEvolves
  | step step => exact (quiet_localStep s step).toEvolves
  | ledger chain =>
    exact ⟨List.prefix_rfl, fun _ => List.prefix_rfl, fun h => ⟨h.version, h.owner, h.stored, h.copies⟩,
      fun _ => rfl⟩

theorem evolves_after (config : SyncConfig) (s : Shared) (moves : List Move) :
    Evolves s (s.after config moves) := by
  induction moves generalizing s with
  | nil => exact .refl s
  | cons move rest ih => exact (evolves_move config s move).trans (ih _)

/-- A cycle came through in the course of a history: from `s` to `s'`, with `last` some time later. -/
structure CameThrough (config : SyncConfig) (s : Shared) (checkpoint head : Nat) (s' last : Shared) : Prop where
  before : ∃ m moves, s = (start m).after config moves
  returned : ∃ turns applied skipped,
    (cycle config turns).run s = (.ok (.advanced checkpoint head applied skipped), s')
  later : ∃ moves, last = s'.after config moves

/-- The stamps that the ledger has for a case from a checkpoint up to a head, in order. -/
def stampsAhead (s : Shared) (checkpoint head : Nat) (id : CaseId) : List (ChainStamp × Timestamp) :=
  (s.memory.chain.events (checkpoint + 1) (head - checkpoint)).filterMap (·.stampFor id)

variable {last : Shared} {checkpoint head : Nat}

theorem CameThrough.handled (h : CameThrough config s checkpoint head s' last) :
    s.Coherent ∧ Evolves s' last ∧
      Handled config.nodeOwner (s.memory.chain.events (checkpoint + 1) (head - checkpoint)) s s' := by
  obtain ⟨m, before, rfl⟩ := h.before
  obtain ⟨turns, _, _, returned⟩ := h.returned
  obtain ⟨later, rfl⟩ := h.later
  exact ⟨(evolves_after config _ before).coherent (coherent_start m), evolves_after config s' later,
    (syncToHead_ok returned).after_quiet (quiet_turns _ turns)⟩

/-- The cycle has saved a case of the node with each stamp that the ledger has for it. -/
theorem CameThrough.saved (h : CameThrough config s checkpoint head s' last)
    (mine : last.memory.repository.ownerOf? id = some config.nodeOwner) {i : Nat} {stamp : ChainStamp}
    {on : Timestamp} (named : (s.stampsAhead checkpoint head id)[i]? = some (stamp, on)) :
    ∃ c, (s'.stamped id)[s.version id + i]? = some c ∧ c.Bears stamp on := by
  obtain ⟨coherent, onward, handled⟩ := h.handled
  rw [onward.owners (handled.coherent coherent), handled.owners coherent] at mine
  obtain ⟨saved, grown, bear⟩ := handled.stamps coherent id mine
  obtain ⟨lt, stamped⟩ := List.getElem?_eq_some_iff.mp named
  have lt' : i < saved.length := bear.length_eq ▸ lt
  refine ⟨saved[i], ?_, ?_⟩
  · rw [grown]
    show (s.stamped id ++ saved)[(s.stamped id).length + i]? = some saved[i]
    rw [List.getElem?_append_right (Nat.le_add_right _ _), Nat.add_sub_cancel_left]
    exact List.getElem?_eq_getElem lt'
  · have bears : saved[i].Bears (s.stampsAhead checkpoint head id)[i].1
        (s.stampsAhead checkpoint head id)[i].2 := bear.get lt' lt
    rwa [stamped] at bears

/-- Whatever came before it, a stamp of a cycle that came through is in the stored case of the node
after any later steps, if no local call saved a copy of the case across the saving of the stamp, and
if an item that is acknowledged was confirmed in what the cycle saved. -/
theorem stamps_survive (config : SyncConfig) (h : CameThrough config s checkpoint head s' last) {c : Case}
    (found : last.memory.repository.find? id = some c) (mine : c.owner = config.nodeOwner)
    {i : Nat} {stamp : ChainStamp} {on : Timestamp}
    (named : (s.stampsAhead checkpoint head id)[i]? = some (stamp, on))
    (undisturbed : last.Undisturbed id (s.version id + i + 1))
    (confirmed : ∀ kind key, stamp = .itemAcknowledged kind key → ∀ saved,
      (s'.stamped id)[s.version id + i]? = some saved → saved.HasItem kind key (¬·.IsDraft)) :
    c.Bears stamp on := by
  obtain ⟨coherent, onward, handled⟩ := h.handled
  obtain ⟨saved, noted, bears⟩ := h.saved (mine ▸ Repository.ownerOf?_of_find? found) named
  have firmly : saved.BearsFirmly stamp on :=
    ⟨bears, fun kind key same => confirmed kind key same saved noted⟩
  have kept : (last.stamped id)[s.version id + i]? = some saved := by
    obtain ⟨lt, same⟩ := List.getElem?_eq_some_iff.mp noted
    rw [← same]
    exact List.prefix_iff_getElem?.mp (onward.stamped id) _ lt
  have goesOn := (onward.coherent (handled.coherent coherent)).stored id _ _ kept undisturbed c found
  exact (firmly.continues goesOn).bears

/-- Some time after a cycle came through, a case of the node does not bear a stamp that the cycle
had for it. -/
def Loses (config : SyncConfig) (id : CaseId) (stamp : ChainStamp) (on : Timestamp) : Prop :=
  ∃ s checkpoint head s' last c, CameThrough config s checkpoint head s' last ∧
    (stamp, on) ∈ s.stampsAhead checkpoint head id ∧ last.memory.repository.find? id = some c ∧
    c.owner = config.nodeOwner ∧ ¬c.Bears stamp on

end Shared

/-! ### Local calls around a cycle -/

namespace Sample
open Shared

/-- Drafts the item. -/
def drafts : LocalChange := .ofOperations [.addItem .metadata node ⟨"deed", "2031"⟩]

/-- Removes the item. -/
def removes : LocalChange := .ofOperations [.removeItem .metadata node "deed"]

/-- Prepares the case to be void. -/
def withdraws : LocalChange := .ofOperations [.preVoid "withdrawn"]

theorem stampFor_closing : LedgerEvent.stampFor saleId ⟨closing, .epoch⟩ = some (.closed, .epoch) := by
  have named : closing.demand = .ok (.stamp .close saleId) := by decide +kernel
  exact LedgerEvent.stampFor_eq_some.mpr ⟨LedgerOperation.stamp?_eq_some.mpr ⟨_, named, rfl⟩, rfl⟩

/-- A cycle that closes the sale, with a local call that comes to its end before that. -/
def closedAfter : Except Error SyncOutcome × Shared :=
  (cycle config [⟨[.load 0 saleId], none⟩, ⟨[.save 0 drafts], none⟩]).run (start memory)

/-- Another local call withdraws the sale. -/
def edited : Shared := closedAfter.2.after config [.step (.load 1 saleId), .step (.save 1 withdraws)]

/-- A local call has loaded the sale. -/
def loaded : Shared := (start memory).after config [.step (.load 0 saleId)]

def closedMeanwhile : Except Error SyncOutcome × Shared := (cycle config []).run loaded

/-- The local call saves the sale as it had it. -/
def reopened : Shared := closedMeanwhile.2.after config [.step (.save 0 drafts)]

/-- The sale with an item that the ledger acknowledges, though it never confirmed it. -/
def drafted : Shared :=
  (start { memory with chain := Chain.empty.push ⟨1, .epoch, [acknowledging]⟩ }).after config
    [.step (.load 0 saleId), .step (.save 0 drafts)]

def acknowledged : Except Error SyncOutcome × Shared := (cycle config []).run drafted

def removed : Shared :=
  acknowledged.2.after config [.step (.load 0 saleId), .step (.save 0 removes)]

end Sample

theorem Shared.closing_survives :
    ∃ c, Sample.edited.memory.repository.find? Sample.saleId = some c ∧ c.Bears .closed .epoch := by
  have returned : Sample.closedAfter.1 = .ok (.advanced 0 2 1 1) := by decide +kernel
  have stored : (Sample.edited.memory.repository.find? Sample.saleId).map Case.owner = some Sample.node := by
    decide +kernel
  have spans : Sample.edited.spans = [⟨Sample.saleId, 0, 0⟩, ⟨Sample.saleId, 1, 1⟩] := by decide +kernel
  have foreign : (LedgerOperation.new "balances.transfer" .null).demand = .ok (.pass .foreign) := by
    decide +kernel
  obtain ⟨c, found, mine⟩ := Option.map_eq_some_iff.mp stored
  have cycled : CameThrough Sample.config (start Sample.memory) 0 2 Sample.closedAfter.2 Sample.edited :=
    ⟨⟨_, [], rfl⟩, ⟨_, 1, 1, Action.eq_of_fst (p := Sample.closedAfter) returned⟩, ⟨_, rfl⟩⟩
  have named : ((start Sample.memory).stampsAhead 0 2 Sample.saleId)[0]? = some (.closed, .epoch) := by
    have transfer : LedgerEvent.stampFor Sample.saleId ⟨.new "balances.transfer" .null, .epoch⟩ = none :=
      LedgerEvent.stampFor_eq_none.mpr fun stamp hs => by
        obtain ⟨kind, hd, -⟩ := LedgerOperation.stamp?_eq_some.mp hs
        cases foreign.symm.trans hd
    show ([⟨.new "balances.transfer" .null, .epoch⟩, ⟨Sample.closing, .epoch⟩].filterMap
      (LedgerEvent.stampFor Sample.saleId))[0]? = some (ChainStamp.closed, Timestamp.epoch)
    simp only [List.filterMap_cons, transfer, Sample.stampFor_closing, List.getElem?_cons_zero]
  have undisturbed : Sample.edited.Undisturbed Sample.saleId
      ((start Sample.memory).version Sample.saleId + 0 + 1) := by
    unfold Undisturbed
    rw [spans]
    decide
  have notAcknowledged : ∀ kind key, ChainStamp.closed ≠ .itemAcknowledged kind key := nofun
  exact ⟨c, found, stamps_survive Sample.config cycled found mine named undisturbed
    fun kind key same => absurd same (notAcknowledged kind key)⟩

/-- A stamp is lost to a local call that is under way during the cycle, and the acknowledgement of
an item that is not confirmed is lost to one that comes later. -/
theorem Shared.stamps_lost :
    Loses Sample.config Sample.saleId .closed .epoch ∧
      Loses Sample.config Sample.saleId (.itemAcknowledged .metadata "deed") .epoch := by
  constructor
  · have returned : Sample.closedMeanwhile.1 = .ok (.advanced 0 2 1 1) := by decide +kernel
    have stored : (Sample.reopened.memory.repository.find? Sample.saleId).map
        (fun c => (c.owner, c.closedOn)) = some (Sample.node, none) := by decide +kernel
    obtain ⟨c, found, hc⟩ := Option.map_eq_some_iff.mp stored
    obtain ⟨mine, opened⟩ := Prod.mk.inj hc
    have cycled : CameThrough Sample.config Sample.loaded 0 2 Sample.closedMeanwhile.2 Sample.reopened :=
      ⟨⟨_, _, rfl⟩, ⟨[], 1, 1, Action.eq_of_fst (p := Sample.closedMeanwhile) returned⟩, ⟨_, rfl⟩⟩
    have ahead : (.closed, .epoch) ∈ Sample.loaded.stampsAhead 0 2 Sample.saleId :=
      List.mem_filterMap.mpr ⟨⟨Sample.closing, .epoch⟩, .tail _ (.head _), Sample.stampFor_closing⟩
    refine ⟨_, 0, 2, _, _, c, cycled, ahead, found, mine, fun bears => ?_⟩
    have closed := (bears (.close .epoch) List.mem_cons_self).2
    rw [opened] at closed
    cases closed
  · have returned : Sample.acknowledged.1 = .ok (.advanced 0 1 1 0) := by decide +kernel
    have stored : (Sample.removed.memory.repository.find? Sample.saleId).map
        (fun c => (c.owner, ((c.collection .metadata).get? "deed").isSome)) =
        some (Sample.node, false) := by decide +kernel
    obtain ⟨c, found, hc⟩ := Option.map_eq_some_iff.mp stored
    obtain ⟨mine, gone⟩ := Prod.mk.inj hc
    have cycled : CameThrough Sample.config Sample.drafted 0 1 Sample.acknowledged.2 Sample.removed :=
      ⟨⟨_, _, rfl⟩, ⟨[], 1, 0, Action.eq_of_fst (p := Sample.acknowledged) returned⟩, ⟨_, rfl⟩⟩
    have ahead :
        (.itemAcknowledged .metadata "deed", .epoch) ∈ Sample.drafted.stampsAhead 0 1 Sample.saleId :=
      List.mem_filterMap.mpr ⟨⟨Sample.acknowledging, .epoch⟩, .head _,
        LedgerEvent.stampFor_eq_some.mpr ⟨Sample.stamp?_acknowledging, rfl⟩⟩
    refine ⟨_, 0, 1, _, _, c, cycled, ahead, found, mine, fun bears => ?_⟩
    obtain ⟨item, there, _⟩ := bears (.stampItem .metadata (.acknowledged .epoch) "deed") List.mem_cons_self
    rw [there] at gone
    cases gone

end CaseRegistry
