import CaseRegistry.Proofs.Atomic.Cases
import CaseRegistry.Proofs.Sync.Dispatch
import CaseRegistry.Store.Faults

/-! Failures of stamps, of the service and of the dispatch.

A stamp of the ledger may consist of two operations on its case. Where the first went through,
the second cannot fail: the creation fees are never refused, and an item that was stamped once
is there (`ChainStamp.isAtomic_apply`). Stores that keep to what they hold when a call fails
(`FailsCleanly`: those in memory, and such stores behind faults) are left as they were by a
change that fails, whatever it did to its copy of the case, and by a dispatch that fails.
`failure_leaves_no_trace` puts this together with items, collections and cases. -/
open CaseRegistry.Action (KeepsOnFailure IsAtomic)

namespace CaseRegistry

/-! ### Stamps -/

namespace Case

variable {c c' : Case}

theorem isAtomic_apply (op : CaseOperation) : (apply op).IsAtomic := by
  cases op with
  | setCreatedDate on =>
    intro c e c' failed
    rw [run_apply_setCreatedDate, run_setCreatedDate] at failed
    split at failed
    · cases failed
    · split at failed <;> cases failed
  | _ =>
    unfold apply
    exact Action.isAtomic_step _

/-- Creation fees are never refused. -/
theorem setCreationFees_ok (fees : Fees) (c : Case) :
    ∃ reply c', (apply (.setCreationFees fees)).run c = (.ok reply, c') :=
  ⟨_, _, withOutcome_eq_ok.mpr ⟨_, rfl, rfl⟩⟩

/-- Where an item was stamped, it can be stamped again. -/
theorem stampItem_ok_again {kind : ItemKind} {key : kind.Key} {s : ItemStamp} {reply : CaseReply}
    (stamped : (apply (.stampItem kind s key)).run c = (.ok reply, c')) (s' : ItemStamp) :
    ∃ reply c'', (apply (.stampItem kind s' key)).run c' = (.ok reply, c'') := by
  obtain ⟨changes, done, _⟩ := withChanges_eq_ok.mp stamped
  obtain ⟨item, found, _⟩ := records_of_stampItem done
  exact ⟨_, _, withChanges_eq_ok.mpr ⟨_, stampItem_eq_ok.mpr ⟨item, found, rfl, rfl⟩, rfl⟩⟩

theorem performFrom_single_ok {op : CaseOperation} {reply : CaseReply}
    (done : (apply op).run c = (.ok reply, c')) (total : ChangeSet) :
    ∃ changes c'', (performFrom total [op]).run c = (.ok changes, c'') :=
  ⟨_, c', Action.run_bind_of_ok done _⟩

/-- Two operations of which the second goes through after the first. -/
theorem isAtomic_perform_pair {first second : CaseOperation}
    (after : ∀ {c reply c'}, (apply first).run c = (.ok reply, c') →
      ∃ reply c'', (apply second).run c' = (.ok reply, c'')) :
    (perform [first, second]).IsAtomic := by
  refine (isAtomic_apply first).bind_ok fun c reply c' done => ?_
  obtain ⟨reply', c'', done'⟩ := after done
  exact performFrom_single_ok done' _

theorem isAtomic_perform_single (op : CaseOperation) : (perform [op]).IsAtomic :=
  (isAtomic_apply op).map fun reply => ChangeSet.merge ∅ reply.changeSet

end Case

theorem ChainStamp.isAtomic_apply (stamp : ChainStamp) (on : Timestamp) :
    (stamp.apply on).IsAtomic := by
  cases stamp with
  | created fees => exact Case.isAtomic_perform_pair fun _ => Case.setCreationFees_ok fees _
  | itemAdded kind key fees =>
    exact Case.isAtomic_perform_pair fun done => Case.stampItem_ok_again done (.fees fees)
  | itemAcknowledged kind key => exact Case.isAtomic_perform_single _
  | closed => exact Case.isAtomic_perform_single _
  | voided replacer => cases replacer <;> exact Case.isAtomic_perform_single _
  | collectionItemAdded itemId fees => exact Case.isAtomic_perform_single _

/-! ### Stores -/

namespace Backend

variable {σ ρ α : Type} {b : Backend σ} {view : σ → ρ}

/-- Looking a case up changes nothing that is seen of the stores, and neither does saving one
when it fails. -/
structure FailsCleanly (b : Backend σ) (view : σ → ρ) : Prop where
  findCase : ∀ id, Action.Always (fun s s' => view s' = view s) (b.findCase id)
  saveCase : ∀ c changes, KeepsOnFailure view (b.saveCase c changes)

theorem failsCleanly_memory : Memory.backend.FailsCleanly id where
  findCase _ _ := rfl
  saveCase c changes := by
    intro s e s' failed
    cases failed

/-- A call behind faults leaves what it leaves without them, or is not made. -/
theorem guarded_cases (point : CallPoint) (call : Action σ α) (s : σ) (faults : List Fault) :
    (∃ e rest, (guarded point call).run (s, faults) = (.error e, (s, rest))) ∨
      ∃ rest, (guarded point call).run (s, faults) =
        ((call.run s).1, ((call.run s).2, rest)) := by
  rcases tripped : Fault.trip point faults with ⟨_ | e, rest⟩
  · exact .inr ⟨rest, by simp only [guarded, Action.run, tripped]⟩
  · exact .inl ⟨e, rest, by simp only [guarded, Action.run, tripped]⟩

theorem always_guarded {point : CallPoint} {call : Action σ α}
    (h : call.Always fun s s' => view s' = view s) :
    (guarded point call).Always fun t t' => view t'.1 = view t.1 := by
  rintro ⟨s, faults⟩
  rcases guarded_cases point call s faults with ⟨e, rest, met⟩ | ⟨rest, made⟩
  · rw [met]
  · rw [made]
    exact h s

theorem keepsOnFailure_guarded {point : CallPoint} {call : Action σ α} (h : KeepsOnFailure view call) :
    KeepsOnFailure (fun t => view t.1) (guarded point call) := by
  rintro ⟨s, faults⟩ e t failed
  rcases guarded_cases point call s faults with ⟨e', rest, met⟩ | ⟨rest, made⟩
  · rw [met] at failed
    cases failed
    rfl
  · rw [made] at failed
    obtain ⟨result, rfl⟩ := Prod.mk.inj failed
    exact h s e _ (Action.eq_of_fst result)

/-- A call behind faults that comes through was made. -/
theorem guarded_eq_ok {point : CallPoint} {call : Action σ α} {a : α} {s : σ} {faults : List Fault}
    {t : σ × List Fault} (h : (guarded point call).run (s, faults) = (.ok a, t)) :
    call.run s = (.ok a, t.1) := by
  rcases guarded_cases point call s faults with ⟨e, rest, met⟩ | ⟨rest, made⟩
  · rw [met] at h
    cases h
  · rw [made] at h
    obtain ⟨result, rfl⟩ := Prod.mk.inj h
    exact Action.eq_of_fst result

theorem FailsCleanly.withFaults (h : b.FailsCleanly view) :
    b.withFaults.FailsCleanly fun s => view s.1 where
  findCase id := always_guarded (h.findCase id)
  saveCase c changes := keepsOnFailure_guarded (h.saveCase c changes)

variable (h : b.FailsCleanly view)
include h

theorem FailsCleanly.commit (p : Except Error ChangeSet × Case) :
    KeepsOnFailure view (b.commit p) := by
  obtain ⟨e | changes, c⟩ := p
  · exact Action.keepsOnFailure_fail e
  · exact (h.saveCase c changes).map fun _ => c

/-- Neither a change that fails nor a save that fails touches the stores. -/
theorem FailsCleanly.mutate (id : CaseId) (change : Action Case ChangeSet) :
    KeepsOnFailure view (b.mutate id change) := by
  unfold Backend.mutate getCase
  rw [bind_assoc]
  refine .bind (h.findCase id) fun found => ?_
  cases found with
  | none => exact Action.keepsOnFailure_fail (.caseNotFound id)
  | some c => exact h.commit (change.run c)

theorem FailsCleanly.stampCase (kind : OperationKind) (op : LedgerOperation) (on : Timestamp)
    (id : CaseId) : KeepsOnFailure view (b.stampCase kind op on id) := by
  unfold Backend.stampCase
  refine .bind (Action.always_ofExcept _) fun stamp => ?_
  cases stamp with
  | none => exact Action.keepsOnFailure_pure _
  | some stamp => exact (h.mutate id (stamp.apply on)).map fun _ => DispatchResult.applied id

theorem FailsCleanly.dispatch (node : Identity) (op : LedgerOperation) (on : Timestamp) :
    KeepsOnFailure view (b.dispatch node op on) := by
  intro s e s' failed
  rw [run_dispatch] at failed
  split at failed
  · cases failed
    rfl
  · cases failed
  · next kind id _ =>
    refine KeepsOnFailure.bind (h.findCase id) (fun found => ?_) s e s' failed
    cases found with
    | none =>
      show KeepsOnFailure view (if _ then _ else _)
      split
      · exact Action.keepsOnFailure_pure _
      · exact Action.keepsOnFailure_fail _
    | some c =>
      show KeepsOnFailure view (if _ then _ else _)
      split
      · exact h.stampCase kind op on id
      · exact Action.keepsOnFailure_pure _

end Backend

/-! ### All levels -/

/-- A failure leaves everything as it was. Items, collections and cases that are written piece
by piece come to the same as those that are given at once, whatever state they are in, so no
write is followed by a failure; stamps on a case, changes to a stored case and dispatched
operations leave the case and the stores as they were, and so they do when the stores fail. -/
theorem failure_leaves_no_trace :
    (∀ (kind : ItemKind) (s : ItemStep) (actor : Identity) (ctx : CaseContext),
      (Item.Piecemeal.perform s actor ctx : Action (Item kind) ChangeSet).CarriesOut
        (Item.perform s actor ctx)) ∧
    (∀ (kind : ItemKind) (s : ItemStamp),
      (Item.Piecemeal.stamp s : Action (Item kind) ChangeSet).CarriesOut
        fun item => .ok (item.stamp s)) ∧
    (∀ (kind : ItemKind) (submitter : Identity) (mode : SubmissionMode) (payload : kind.Payload),
      (Collection.Piecemeal.add submitter mode payload).CarriesOut
        (·.add submitter mode payload)) ∧
    (∀ (kind : ItemKind) (key : kind.Key) (actor : Identity) (ctx : CaseContext),
      (Collection.Piecemeal.remove key actor ctx).CarriesOut (·.remove key actor ctx)) ∧
    (∀ (hash : ContentHash) (restricted : Bool),
      (Collection.Piecemeal.onItem hash
        (Collection.Piecemeal.restrictDelivery restricted)).CarriesOut
        (·.setRestrictedDelivery hash restricted)) ∧
    (∀ (hash : ContentHash) (copy : DeliveredCopy),
      (Collection.Piecemeal.onItem hash (Collection.Piecemeal.deliverCopy copy)).CarriesOut
        (·.addDeliveredCopy hash copy)) ∧
    (∀ op : CaseOperation, Case.Piecemeal.apply op = Case.apply op ∧ (Case.apply op).IsAtomic) ∧
    (∀ (stamp : ChainStamp) (on : Timestamp), (stamp.apply on).IsAtomic) ∧
    (∀ (id : CaseId) (change : Action Case ChangeSet),
      (Memory.backend.mutate id change).IsAtomic ∧
        (Memory.backend.withFaults.mutate id change).KeepsOnFailure Prod.fst) ∧
    (∀ (node : Identity) (op : LedgerOperation) (on : Timestamp),
      (Memory.backend.dispatch node op on).IsAtomic ∧
        (Memory.backend.withFaults.dispatch node op on).KeepsOnFailure Prod.fst) := by
  have clean := Backend.failsCleanly_memory
  have behindFaults := clean.withFaults
  refine ⟨?_, ?_, ?_, ?_, ?_, ?_, ?_, ?_, ?_, ?_⟩
  · exact fun kind s actor ctx => Action.carriesOut_of_eq (Item.Piecemeal.perform_eq s actor ctx)
  · exact fun kind s => Action.carriesOut_of_eq (Item.Piecemeal.stamp_eq s)
  · exact fun kind submitter mode payload =>
      Action.carriesOut_of_eq (Collection.Piecemeal.add_eq submitter mode payload)
  · exact fun kind key actor ctx =>
      Action.carriesOut_of_eq (Collection.Piecemeal.remove_eq key actor ctx)
  · intro hash restricted
    refine Action.carriesOut_of_eq ?_
    rw [Collection.Piecemeal.restrictDelivery_eq, Collection.Piecemeal.onItem_step]
    rfl
  · intro hash copy
    refine Action.carriesOut_of_eq ?_
    rw [Collection.Piecemeal.deliverCopy_eq, Collection.Piecemeal.onItem_step]
    rfl
  · exact fun op => ⟨Case.Piecemeal.apply_eq op, Case.isAtomic_apply op⟩
  · exact ChainStamp.isAtomic_apply
  · exact fun id change => ⟨clean.mutate id change, behindFaults.mutate id change⟩
  · exact fun node op on => ⟨clean.dispatch node op on, behindFaults.dispatch node op on⟩

end CaseRegistry
