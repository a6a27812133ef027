import CaseRegistry.Proofs.Case.Items
import CaseRegistry.Proofs.Ledger.Records

/-! What an operation changes and what its change set says.

An operation that succeeds leaves all items as they are and tells of nothing, or it changes one
collection in one of three ways (`Collection.Changes`): it writes something other than the index
into one item and tells of the update, it adds an item at the end, or it removes one and tells
of it and of every item behind that gets another index. Every operation does one of these
(`changes_of_apply`), so what change sets say is shown by going through four cases. -/
namespace CaseRegistry

namespace Item

variable {kind : ItemKind} {item later : Item kind}

/-! ### One item -/

/-- How an item is written to, and what is told of that. -/
inductive Writes (item : Item kind) : Item kind → ChangeSet → Prop where
  | same : item.Writes item ∅
  | update {later : Item kind} (inPlace : item.InPlace later)
      (differs : later.record ≠ item.record) : item.Writes later (.update item.ref)

/-- Every action moves an item on in its review or its confirmation. -/
theorem Performed.status_ne {ctx : CaseContext} {actor : Identity} {step : ItemStep}
    (h : item.Performed ctx actor step later) : later.status ≠ item.status := by
  cases h with
  | requestReview _ _ _ standing => rcases standing with now | now <;> simp [now]
  | accept _ pending | reject _ pending => simp [pending]
  | prePublishOrAcknowledge _ _ confirmable =>
    rcases confirmable.cleared with now | ⟨now, _⟩ <;> simp only [now] <;> split <;> simp
  | preAcknowledge _ _ confirmable =>
    rcases confirmable.cleared with now | ⟨now, _⟩ <;> simp [now]
  | cancelPrePublishOrAcknowledge _ _ _ standing | cancelPreAcknowledge _ _ _ standing =>
    unfold statusBeforeConfirmation
    rcases standing with now | now <;> simp only [now] <;> split <;> simp

theorem writes_of_perform {ctx : CaseContext} {actor : Identity} {step : ItemStep}
    {changes : ChangeSet} (done : item.perform step actor ctx = .ok (later, changes)) :
    item.Writes later changes := by
  obtain ⟨performed, rfl⟩ := perform_eq_ok_iff.mp done
  refine .update performed.inPlace fun same => performed.status_ne ?_
  have unmoved := congrArg (fun x : Item kind => x.status) same
  exact unmoved

/-- A stamp writes where nothing was written yet. -/
theorem writes_stamp (s : ItemStamp) (item : Item kind) :
    item.Writes (item.stamp s).1 (item.stamp s).2 := by
  by_cases bears : item.Bears s
  · rw [stamp_of_bears bears]
    exact .same
  · cases s with
    | added on =>
      rw [show item.stamp (.added on) = _ from if_neg bears]
      refine .update ⟨rfl, rfl⟩ fun same => bears ?_
      have unset := congrArg (fun x : Item kind => x.addedOn.isSome) same
      exact unset.symm
    | fees fees =>
      rw [show item.stamp (.fees fees) = _ from if_neg bears]
      refine .update ⟨rfl, rfl⟩ fun same => bears ?_
      have unset := congrArg (fun x : Item kind => x.fees.isSome) same
      exact unset.symm
    | acknowledged on =>
      rw [show item.stamp (.acknowledged on) = _ from if_neg bears]
      refine .update ⟨rfl, rfl⟩ fun same => bears ?_
      have unset := congrArg (fun x : Item kind => x.acknowledgedOn.isSome) same
      exact unset.symm

theorem writes_restrictDelivery (restricted : Bool) (file : Item .file) :
    file.Writes (Collection.restrictDelivery restricted file).1
      (Collection.restrictDelivery restricted file).2 := by
  unfold Collection.restrictDelivery
  split
  case isTrue => exact .same
  case isFalse other =>
    refine .update ⟨rfl, rfl⟩ fun same => other ?_
    have unset := congrArg (fun x : Item .file => x.payload.restrictedDelivery) same
    exact unset.symm

theorem writes_of_deliverCopy {copy : DeliveredCopy} {file later : Item .file}
    {changes : ChangeSet} (done : Collection.deliverCopy copy file = .ok (later, changes)) :
    file.Writes later changes := by
  simp only [Collection.deliverCopy, ensure_bind_eq_ok, pure_eq_ok] at done
  obtain ⟨_, _, _, done⟩ := done
  obtain ⟨rfl, rfl⟩ := Prod.mk.inj done
  refine .update ⟨rfl, rfl⟩ fun same => ?_
  have longer := congrArg (fun x : Item .file => x.payload.delivered.length) same
  simp [record] at longer

end Item

/-! ### One collection -/

namespace Collection

variable {kind : ItemKind} {c new : Collection kind} {changes : ChangeSet}

/-- How an operation changes a collection, and what it tells of that. -/
inductive Changes (c : Collection kind) : Collection kind → ChangeSet → Prop where
  | same : c.Changes c ∅
  | written {key : kind.Key} {item later : Item kind} (found : c.get? key = some item)
      (inPlace : item.InPlace later) (differs : later.record ≠ item.record) :
      c.Changes (c.put key later) (.update item.ref)
  | added {item : Item kind} (fresh : item.key ∉ c) :
      c.Changes ⟨c.items ++ [item]⟩ (.add item.ref)
  | removed {before behind : List (Item kind)} {item : Item kind}
      (whole : c.items = before ++ item :: behind) :
      c.Changes ⟨before ++ renumber before.length behind⟩
        { (∅ : ChangeSet) with removed := [item.ref], reindexed := movesOf before.length behind }

theorem changes_of_modify {key : kind.Key} {f : Item kind → Except Error (Item kind × ChangeSet)}
    (hf : ∀ {item later changes}, f item = .ok (later, changes) → item.Writes later changes)
    (done : c.modify key f = .ok (new, changes)) : c.Changes new changes := by
  obtain ⟨item, later, found, written, rfl⟩ := modify_eq_ok.mp done
  cases hf written with
  | same =>
    rw [put_get? found]
    exact .same
  | update inPlace differs => exact .written found inPlace differs

theorem changes_of_add {submitter : Identity} {mode : SubmissionMode} {payload : kind.Payload}
    (done : c.add submitter mode payload = .ok (new, changes)) : c.Changes new changes := by
  obtain ⟨fresh, rfl, rfl⟩ := add_eq_ok.mp done
  exact .added fresh

theorem changes_of_remove {key : kind.Key} {actor : Identity} {ctx : CaseContext}
    (done : c.remove key actor ctx = .ok (new, changes)) : c.Changes new changes := by
  obtain ⟨before, item, behind, whole, _, _, _, _, rfl, rfl⟩ := remove_ok done
  exact .removed whole

end Collection

/-! ### All operations -/

namespace Case

variable {c c' : Case} {reply : CaseReply}

/-- How an operation changes the items of a case, and what it tells of that. -/
def Changes (c c' : Case) (changes : ChangeSet) : Prop :=
  ∃ kind, (c.collection kind).Changes (c'.collection kind) changes ∧
    ∀ other, other ≠ kind → c'.collection other = c.collection other

theorem changes_of_same (same : c'.items = c.items) : c.Changes c' ∅ := by
  have still : ∀ kind, c'.collection kind = c.collection kind := fun kind =>
    congrArg (CaseItems.get · kind) same
  refine ⟨.file, ?_, fun other _ => still other⟩
  rw [still]
  exact .same

theorem changes_of_onCollection {kind : ItemKind} {changes : ChangeSet}
    {f : Collection kind → Except Error (Collection kind × ChangeSet)}
    (hf : ∀ {new}, f (c.collection kind) = .ok (new, changes) →
      (c.collection kind).Changes new changes)
    (done : c.onCollection kind f = .ok (c', changes)) : c.Changes c' changes := by
  obtain ⟨new, changed, rfl⟩ := onCollection_eq_ok.mp done
  refine ⟨kind, ?_, fun other ne => collection_withItems_of_ne c new ne⟩
  rw [collection_withItems]
  exact hf changed

theorem silently_eq_ok {f : Case → Except Error Case} :
    (apply.silently f).run c = (.ok reply, c') ↔ f c = .ok c' ∧ reply = .done := by
  unfold apply.silently
  rw [Action.run_step]
  cases hf : f c with
  | error e => simp [Except.map]
  | ok after =>
    simp only [Except.map, Prod.mk.injEq, Except.ok.injEq]
    exact ⟨fun ⟨hr, hc⟩ => ⟨hc, hr.symm⟩, fun ⟨hc, hr⟩ => ⟨hr.symm, hc⟩⟩

theorem becomes_of_apply {op : CaseOperation} (ran : (apply op).run c = (.ok reply, c')) :
    c.Becomes op c' := by
  have becomes := apply_becomes op c
  rwa [ran] at becomes

/-- An operation that succeeds tells what it changes. -/
theorem changes_of_apply {op : CaseOperation} (ran : (apply op).run c = (.ok reply, c')) :
    c.Changes c' reply.changeSet := by
  have becomes := becomes_of_apply ran
  cases op with
  | submit | accept on | reject reason on | rework | preClose | preVoid reason
  | startIdentityVerification | completeIdentityVerification success
  | addDelegate actor delegate | removeDelegate actor delegate =>
    obtain ⟨_, rfl⟩ := silently_eq_ok.mp ran
    exact changes_of_same (by cases becomes <;> rfl)
  | setCreatedDate on =>
    rw [run_apply_setCreatedDate] at ran
    obtain ⟨outcome, _, rfl⟩ := map_eq_ok.mp (Prod.mk.inj ran).1
    exact changes_of_same (by cases becomes <;> rfl)
  | setCreationFees fees | close on | makeVoid on | voidAndReplace replacer on
  | addCollectionItem itemId on fees =>
    obtain ⟨outcome, _, rfl⟩ := withOutcome_eq_ok.mp ran
    exact changes_of_same (by cases becomes <;> rfl)
  | addItem kind submitter payload =>
    obtain ⟨changes, done, rfl⟩ := withChanges_eq_ok.mp ran
    simp only [addItem, bind_eq_ok] at done
    obtain ⟨_, _, _, _, done⟩ := done
    exact changes_of_onCollection Collection.changes_of_add done
  | removeItem kind actor key =>
    obtain ⟨changes, done, rfl⟩ := withChanges_eq_ok.mp ran
    simp only [removeItem, bind_eq_ok] at done
    obtain ⟨_, _, done⟩ := done
    exact changes_of_onCollection Collection.changes_of_remove done
  | performOnItem kind step actor key =>
    obtain ⟨changes, done, rfl⟩ := withChanges_eq_ok.mp ran
    simp only [performOnItem, bind_eq_ok] at done
    obtain ⟨_, _, done⟩ := done
    exact changes_of_onCollection (Collection.changes_of_modify Item.writes_of_perform) done
  | stampItem kind s key =>
    obtain ⟨changes, done, rfl⟩ := withChanges_eq_ok.mp ran
    refine changes_of_onCollection (Collection.changes_of_modify ?_) done
    intro item later changes stamped
    obtain ⟨rfl, rfl⟩ := Prod.mk.inj (Except.ok.inj stamped)
    exact item.writes_stamp s
  | setRestrictedDelivery actor hash restricted =>
    obtain ⟨changes, done, rfl⟩ := withChanges_eq_ok.mp ran
    simp only [setRestrictedDelivery, bind_eq_ok] at done
    obtain ⟨_, _, _, _, done⟩ := done
    refine changes_of_onCollection (Collection.changes_of_modify ?_) done
    intro file later changes restrict
    obtain ⟨rfl, rfl⟩ := Prod.mk.inj (Except.ok.inj restrict)
    exact file.writes_restrictDelivery restricted
  | addDeliveredCopy hash copy =>
    obtain ⟨changes, done, rfl⟩ := withChanges_eq_ok.mp ran
    simp only [addDeliveredCopy, bind_eq_ok] at done
    obtain ⟨_, _, done⟩ := done
    exact changes_of_onCollection (Collection.changes_of_modify Item.writes_of_deliverCopy) done

end Case
end CaseRegistry
