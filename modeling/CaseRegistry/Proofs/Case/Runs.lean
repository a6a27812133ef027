import CaseRegistry.Proofs.Case.Items

/-! Runs of operations on a case.

A run takes the operations of a list one after the other (`after`); those that fail leave
the case as it is (`apply_of_not_succeeds`). Properties that hold from one moment until some
operation succeeds are stated with `Spares`: none of the operations named succeeds on the
way. An item that is not removed on the way stays in the case, and what every other step
keeps of it holds at the end (`Spares.fate`). -/
namespace CaseRegistry

/-! ### Operations on one item -/

namespace CaseOperation

variable {kind : ItemKind}

/-- The operation removes an item. -/
def Removes (kind : ItemKind) (key : kind.Key) (op : CaseOperation) : Prop :=
  ∃ actor, op = .removeItem kind actor key

/-- The operation sends an item to review. -/
def SendsToReview (kind : ItemKind) (key : kind.Key) (op : CaseOperation) : Prop :=
  ∃ actor, op = .performOnItem kind .requestReview actor key

/-- The operation takes the confirmation of an item back. -/
def TakesBack (kind : ItemKind) (key : kind.Key) (op : CaseOperation) : Prop :=
  ∃ actor, op = .performOnItem kind .cancelPrePublishOrAcknowledge actor key ∨
    op = .performOnItem kind .cancelPreAcknowledge actor key

end CaseOperation

namespace Case

/-! ### Success -/

def Succeeds (c : Case) (op : CaseOperation) : Prop := ((Case.apply op).run c).1.isOk

instance (c : Case) (op : CaseOperation) : Decidable (c.Succeeds op) :=
  inferInstanceAs (Decidable (_ = true))

variable {c : Case} {op : CaseOperation} {kind : ItemKind} {key : kind.Key} {item : Item kind}

theorem isOk_step {α : Type} {f : Case → Except Error (Case × α)} :
    ((Action.step f).run c).1.isOk ↔ ∃ after reply, f c = .ok (after, reply) := by
  rw [Action.run_step]
  split
  · next after reply done => exact ⟨fun _ => ⟨after, reply, done⟩, fun _ => rfl⟩
  · next failed => exact ⟨nofun, fun ⟨_, _, done⟩ => nomatch failed.symm.trans done⟩

theorem step_of_not_isOk {α : Type} {f : Case → Except Error (Case × α)}
    (h : ¬((Action.step f).run c).1.isOk) : ((Action.step f).run c).2 = c := by
  rw [Action.run_step]
  split
  · next after reply done => exact absurd (isOk_step.mpr ⟨after, reply, done⟩) h
  · rfl

/-- An operation that fails leaves the case as it is. -/
theorem apply_of_not_succeeds (h : ¬c.Succeeds op) : ((Case.apply op).run c).2 = c := by
  cases op with
  | setCreatedDate on =>
    -- The one operation of two writes: it does not fail.
    refine absurd ?_ h
    show ((setCreatedDate on >>= fun outcome => pure (CaseReply.outcome outcome)).run c).1.isOk
    rw [Action.run_bind_pure, run_setCreatedDate]
    split
    · rfl
    · split <;> rfl
  | _ => exact step_of_not_isOk h

theorem isOk_withChanges {f : Case → Except Error (Case × ChangeSet)} :
    ((apply.withChanges f).run c).1.isOk ↔ ∃ after changes, f c = .ok (after, changes) := by
  unfold apply.withChanges
  simp only [isOk_step, map_eq_ok, Prod.exists, Prod.mk.injEq]
  constructor
  · rintro ⟨_, _, after, changes, done, _⟩
    exact ⟨after, changes, done⟩
  · rintro ⟨after, changes, done⟩
    exact ⟨after, _, after, changes, done, rfl, rfl⟩

theorem isOk_silently {f : Case → Except Error Case} :
    ((apply.silently f).run c).1.isOk ↔ ∃ after, f c = .ok after := by
  unfold apply.silently
  simp [isOk_step, map_eq_ok]

/-- An action on an item succeeds exactly when the case is editable and the rules of the action hold
of the item. -/
theorem succeeds_performOnItem {step : ItemStep} {actor : Identity} :
    c.Succeeds (.performOnItem kind step actor key) ↔ c.IsEditable ∧ ∃ item later,
      (c.collection kind).get? key = some item ∧ item.Performed c.context actor step later := by
  refine isOk_withChanges.trans ?_
  simp only [performOnItem, bind_eq_ok, ensureEditable_eq_ok, onCollection_eq_ok, Collection.modify_eq_ok,
    Item.perform_eq_ok_iff]
  constructor
  · rintro ⟨_, _, _, editable, _, ⟨item, later, found, ⟨performed, _⟩, _⟩, _⟩
    exact ⟨editable, item, later, found, performed⟩
  · rintro ⟨editable, item, later, found, performed⟩
    exact ⟨_, _, (), editable, _, ⟨item, later, found, ⟨performed, rfl⟩, rfl⟩, rfl⟩

theorem snd_withChanges {f : Case → Except Error (Case × ChangeSet)} {after : Case} {changes : ChangeSet}
    (done : f c = .ok (after, changes)) : ((apply.withChanges f).run c).2 = after := by
  unfold apply.withChanges
  rw [Action.run_step, done]
  rfl

theorem after_performOnItem {step : ItemStep} {actor : Identity} {later : Item kind} (editable : c.IsEditable)
    (found : (c.collection kind).get? key = some item)
    (performed : item.Performed c.context actor step later) :
    c.after [.performOnItem kind step actor key] =
      c.withItems kind ((c.collection kind).put key later) := by
  have done : c.performOnItem kind step actor key =
      .ok (c.withItems kind ((c.collection kind).put key later), .update item.ref) := by
    simp only [performOnItem, bind_eq_ok, ensureEditable_eq_ok, onCollection_eq_ok,
      Collection.modify_eq_ok, Item.perform_eq_ok_iff]
    exact ⟨(), editable, _, ⟨item, later, found, ⟨performed, rfl⟩, rfl⟩, rfl⟩
  exact snd_withChanges done

/-- After an action that succeeds, the item it makes is found under the key. -/
theorem get?_performOnItem {step : ItemStep} {actor : Identity}
    (h : c.Succeeds (.performOnItem kind step actor key)) :
    ∃ item later, (c.collection kind).get? key = some item ∧ item.Performed c.context actor step later ∧
      (((Case.apply (.performOnItem kind step actor key)).run c).2.collection kind).get? key = some later := by
  obtain ⟨editable, item, later, found, performed⟩ := succeeds_performOnItem.mp h
  have next : ((Case.apply (.performOnItem kind step actor key)).run c).2 =
      c.withItems kind ((c.collection kind).put key later) := after_performOnItem editable found performed
  refine ⟨item, later, found, performed, ?_⟩
  rw [next, collection_withItems]
  exact Collection.get?_put_self found performed.inPlace.key

/-- Only a draft is removed. -/
theorem isDraft_of_succeeds {actor : Identity} (h : c.Succeeds (.removeItem kind actor key))
    (found : (c.collection kind).get? key = some item) : item.IsDraft := by
  obtain ⟨_, _, done⟩ := isOk_withChanges.mp h
  simp only [removeItem, bind_eq_ok, onCollection_eq_ok] at done
  obtain ⟨_, _, _, done, _⟩ := done
  exact Collection.isDraft_of_remove done found

/-! ### Runs -/

/-- Operations that a case refuses, one after the other, leave it as it is. -/
theorem after_of_refused {ops : List CaseOperation} (refused : ∀ op ∈ ops, ¬c.Succeeds op) :
    c.after ops = c := by
  induction ops with
  | nil => rfl
  | cons op rest ih =>
    obtain ⟨first, others⟩ := List.forall_mem_cons.mp refused
    show ((Case.apply op).run c).2.after rest = c
    rw [apply_of_not_succeeds first]
    exact ih others

/-- None of the operations that `p` names succeeds on the way. -/
def Spares (p : CaseOperation → Prop) : Case → List CaseOperation → Prop
  | _, [] => True
  | c, op :: rest => ¬(p op ∧ c.Succeeds op) ∧ Spares p ((Case.apply op).run c).2 rest

variable {p q : CaseOperation → Prop} {ops : List CaseOperation}

theorem spares_of_forall (none : ∀ op ∈ ops, ¬p op) : Spares p c ops := by
  induction ops generalizing c with
  | nil => trivial
  | cons op rest ih =>
    obtain ⟨first, rest_none⟩ := List.forall_mem_cons.mp none
    exact ⟨fun ⟨named, _⟩ => first named, ih rest_none⟩

theorem Spares.or (hp : Spares p c ops) (hq : Spares q c ops) : Spares (fun op => p op ∨ q op) c ops := by
  induction ops generalizing c with
  | nil => trivial
  | cons op rest ih =>
    exact ⟨fun ⟨named, success⟩ => named.elim (hp.1 ⟨·, success⟩) (hq.1 ⟨·, success⟩), ih hp.2 hq.2⟩

/-- What every step that is not named keeps holds at the end. -/
theorem Spares.keeps {P : Case → Prop} (spares : Spares p c ops)
    (kept : ∀ {c : Case} {op : CaseOperation}, ¬p op → P c → P ((Case.apply op).run c).2) (holds : P c) :
    P (c.after ops) := by
  induction ops generalizing c with
  | nil => exact holds
  | cons op rest ih =>
    obtain ⟨spared, rest_spares⟩ := spares
    have next : P ((Case.apply op).run c).2 := by
      by_cases named : p op
      · rw [apply_of_not_succeeds fun success => spared ⟨named, success⟩]
        exact holds
      · exact kept named holds
    exact ih rest_spares next

/-- An item that is not removed on the way stays in the case, and what every step that is not named
keeps of it holds at the end. -/
theorem Spares.fate {P : Item kind → Prop} (spares : Spares p c ops)
    (removals : ∀ op : CaseOperation, op.Removes kind key → p op)
    (kept : ∀ {c : Case} {op : CaseOperation} {item later : Item kind}, ¬p op → item.key = key →
      item.Becomes c op later → P item → P later)
    (found : (c.collection kind).get? key = some item) (holds : P item) :
    ∃ later, ((c.after ops).collection kind).get? key = some later ∧ P later := by
  induction ops generalizing c item with
  | nil => exact ⟨item, found, holds⟩
  | cons op rest ih =>
    obtain ⟨spared, rest_spares⟩ := spares
    by_cases named : p op
    · have stays : ((Case.apply op).run c).2 = c := apply_of_not_succeeds fun success => spared ⟨named, success⟩
      have found : (((Case.apply op).run c).2.collection kind).get? key = some item := by rwa [stays]
      exact ih rest_spares found holds
    · rcases (apply_becomes op c).fate found with ⟨later, hlater, becomes⟩ | ⟨removal, _⟩
      · exact ih rest_spares hlater (kept named (Collection.key_of_get? found) becomes holds)
      · exact absurd (removals op removal) named

end Case
end CaseRegistry
