import CaseRegistry.Proofs.Case.FourEyes
import CaseRegistry.Proofs.Case.Runs

/-! What an operation leaves alone, and what leaves a case alone.

An operation writes the part of a case that it is for and nothing else (`Framed`): what a case was
made from stays, the life of the case goes on without its items, and items of one kind change
without anything else. While a case is frozen, which is while it is not editable, what its parties
and delegates try comes to nothing, whatever the order (`frozen_after`); the stamps of the ledger
look at the item alone, so they do to it what they do to it in an editable case
(`stampsAlike_of_same`). -/
namespace CaseRegistry

namespace CaseOperation

/-- The operation is on the life of the case as a whole: its decision, creation, closing, voiding or
verification. -/
def IsLifeCycle : CaseOperation → Prop
  | .submit | .accept _ | .reject _ _ | .rework | .setCreatedDate _ | .setCreationFees _
  | .preClose | .close _ | .preVoid _ | .makeVoid _ | .voidAndReplace _ _
  | .startIdentityVerification | .completeIdentityVerification _ => True
  | _ => False

/-- The kind of the items that an operation on items is about. -/
def itemKind? : CaseOperation → Option ItemKind
  | .addItem kind _ _ | .removeItem kind _ _ | .performOnItem kind _ _ _
  | .stampItem kind _ _ => some kind
  | .setRestrictedDelivery _ _ _ | .addDeliveredCopy _ _ => some .file
  | _ => none

/-- The operation is what parties and delegates do to items, or the owner to the delegates. -/
def IsLocal : CaseOperation → Prop
  | .addItem _ _ _ | .removeItem _ _ _ | .performOnItem _ _ _ _
  | .addDelegate _ _ | .removeDelegate _ _ => True
  | _ => False

end CaseOperation

namespace Case

variable {c c' : Case} {op : CaseOperation}

/-! ### The frame of an operation -/

/-- What an operation leaves of a case. -/
structure Framed (c : Case) (op : CaseOperation) (later : Case) : Prop where
  id : later.id = c.id
  owner : later.owner = c.owner
  requester : later.requester = c.requester
  kind : later.kind = c.kind
  description : later.description = c.description
  sealInfo : later.sealInfo = c.sealInfo
  lifeCycle : op.IsLifeCycle →
    later.items = c.items ∧ later.delegates = c.delegates ∧ later.collectionItems = c.collectionItems
  /-- All but the collection of one kind is as it was. -/
  items : ∀ kind, op.itemKind? = some kind → later = c.withItems kind (later.collection kind)

theorem framed_same (c : Case) (op : CaseOperation) : c.Framed op c :=
  ⟨rfl, rfl, rfl, rfl, rfl, rfl, fun _ => ⟨rfl, rfl, rfl⟩, fun kind _ => (withItems_collection c kind).symm⟩

theorem framed_withItems {kind : ItemKind} (own : op.itemKind? = some kind) (other : ¬op.IsLifeCycle)
    (new : Collection kind) : c.Framed op (c.withItems kind new) := by
  refine ⟨rfl, rfl, rfl, rfl, rfl, rfl, fun lifeCycle => absurd lifeCycle other, fun other same => ?_⟩
  obtain rfl := Option.some.inj (own.symm.trans same)
  rw [collection_withItems]

theorem Becomes.framed (h : c.Becomes op c') : c.Framed op c' := by
  cases h with
  | same => exact framed_same c op
  | addItem | removeItem | performOnItem | stampItem | setRestrictedDelivery | addDeliveredCopy =>
    refine framed_withItems rfl (fun lifeCycle => ?_) _
    exact lifeCycle
  | addDelegate | removeDelegate | addEntry =>
    exact ⟨rfl, rfl, rfl, rfl, rfl, rfl, nofun, nofun⟩
  | _ => exact ⟨rfl, rfl, rfl, rfl, rfl, rfl, fun _ => ⟨rfl, rfl, rfl⟩, nofun⟩

/-! ### Frozen cases -/

/-- The case waits for a decision, was rejected, is closed or is void. -/
def IsFrozen (c : Case) : Prop :=
  c.status = .requested ∨ c.status = .rejected ∨ c.status = .closed ∨ c.IsVoid

theorem isFrozen_iff : c.IsFrozen ↔ ¬c.IsEditable := by
  unfold IsFrozen IsEditable
  cases c.status <;> simp

/-- What parties and delegates do succeeds in an editable case only. -/
theorem isEditable_of_succeeds (inside : op.IsLocal) (h : c.Succeeds op) : c.IsEditable := by
  cases op with
  | addItem kind submitter payload =>
    obtain ⟨_, _, done⟩ := isOk_withChanges.mp h
    obtain ⟨_, editable, _⟩ := bind_eq_ok.mp done
    exact ensureEditable_eq_ok.mp editable
  | removeItem kind actor key =>
    obtain ⟨_, _, done⟩ := isOk_withChanges.mp h
    obtain ⟨_, editable, _⟩ := bind_eq_ok.mp done
    exact ensureEditable_eq_ok.mp editable
  | performOnItem kind step actor key => exact (succeeds_performOnItem.mp h).1
  -- Who the actor is comes first for delegates, and the gate behind it.
  | addDelegate actor delegate =>
    obtain ⟨_, done⟩ := isOk_silently.mp h
    simp only [addDelegate, bind_eq_ok, ensureEditable_eq_ok] at done
    obtain ⟨_, _, _, editable, _⟩ := done
    exact editable
  | removeDelegate actor delegate =>
    obtain ⟨_, done⟩ := isOk_silently.mp h
    simp only [removeDelegate, bind_eq_ok, ensureEditable_eq_ok] at done
    obtain ⟨_, _, _, editable, _⟩ := done
    exact editable
  | _ => exact inside.elim

/-- Whatever parties and delegates try in a frozen case is refused and comes to nothing. -/
theorem frozen_after (frozen : c.IsFrozen) {ops : List CaseOperation} (inside : ∀ op ∈ ops, op.IsLocal) :
    (∀ op ∈ ops, ¬c.Succeeds op) ∧ c.after ops = c := by
  have refused : ∀ op ∈ ops, ¬c.Succeeds op := fun op mem success =>
    isFrozen_iff.mp frozen (isEditable_of_succeeds (inside op mem) success)
  exact ⟨refused, after_of_refused refused⟩

theorem allows_of_isFrozen (frozen : c.IsFrozen) (kind : ItemKind) (key : kind.Key)
    (check : Item kind → Bool) : c.allows kind key check = false := by
  have refused : c.ensureEditable.isOk = false := by
    cases editable : c.ensureEditable with
    | ok => exact absurd (ensureEditable_eq_ok.mp editable) (isFrozen_iff.mp frozen)
    | error => rfl
  unfold allows
  rw [refused, Bool.false_and]

/-! ### Stamps -/

/-- A stamp does the same to an item in two cases: the reply is the same, and so is the item
afterwards; other items of the first case stay as they are. -/
structure StampsAlike (c e : Case) (kind : ItemKind) (stamp : ItemStamp) (key : kind.Key) : Prop where
  reply : ((Case.apply (.stampItem kind stamp key)).run c).1 =
    ((Case.apply (.stampItem kind stamp key)).run e).1
  item : (((Case.apply (.stampItem kind stamp key)).run c).2.collection kind).get? key =
    (((Case.apply (.stampItem kind stamp key)).run e).2.collection kind).get? key
  others : ∀ other, other ≠ key →
    (((Case.apply (.stampItem kind stamp key)).run c).2.collection kind).get? other =
      (c.collection kind).get? other

variable {kind : ItemKind} {key : kind.Key} {item : Item kind}

theorem run_stampItem_found (found : (c.collection kind).get? key = some item) (stamp : ItemStamp) :
    (Case.apply (.stampItem kind stamp key)).run c =
      (.ok (.changes (item.stamp stamp).2),
        c.withItems kind ((c.collection kind).put key (item.stamp stamp).1)) := by
  have done : c.stampItem kind stamp key =
      .ok (c.withItems kind ((c.collection kind).put key (item.stamp stamp).1), (item.stamp stamp).2) :=
    onCollection_eq_ok.mpr ⟨_, Collection.modify_eq_ok.mpr ⟨item, _, found, rfl, rfl⟩, rfl⟩
  show (apply.withChanges (stampItem kind stamp key)).run c = _
  unfold apply.withChanges
  rw [Action.run_step, done]
  rfl

theorem run_stampItem_missing (missing : (c.collection kind).get? key = none) (stamp : ItemStamp) :
    (Case.apply (.stampItem kind stamp key)).run c = (.error (.itemNotFound (kind.ref key)), c) := by
  have failed : c.stampItem kind stamp key = .error (.itemNotFound (kind.ref key)) := by
    have unknown : (c.collection kind).require key = .error (.itemNotFound (kind.ref key)) := by
      unfold Collection.require
      rw [missing]
    unfold stampItem onCollection Collection.modify
    dsimp only
    rw [unknown]
    rfl
  show (apply.withChanges (stampItem kind stamp key)).run c = _
  unfold apply.withChanges
  rw [Action.run_step, failed]
  rfl

/-- A stamp asks of a case nothing but the item. -/
theorem stampsAlike_of_same {e : Case} (same : (e.collection kind).get? key = (c.collection kind).get? key)
    (stamp : ItemStamp) : c.StampsAlike e kind stamp key := by
  cases found : (c.collection kind).get? key with
  | none =>
    have missing := same.trans found
    constructor
    · rw [run_stampItem_missing found, run_stampItem_missing missing]
    · rw [run_stampItem_missing found, run_stampItem_missing missing, found, missing]
    · intro other _
      rw [run_stampItem_missing found]
  | some item =>
    have there := same.trans found
    have key_eq : (item.stamp stamp).1.key = key :=
      (item.stamp_continues stamp).key.trans (Collection.key_of_get? found)
    constructor
    · rw [run_stampItem_found found, run_stampItem_found there]
    · rw [run_stampItem_found found, run_stampItem_found there, collection_withItems, collection_withItems,
        Collection.get?_put _ key_eq, Collection.get?_put _ key_eq, if_pos rfl, if_pos rfl, found, there]
    · intro other ne
      rw [run_stampItem_found found, collection_withItems, Collection.get?_put _ key_eq, if_neg ne]

/-- Every operation keeps to its part of the case. In a frozen case whatever is done locally to items
and delegates is refused and leaves the case as it was, nothing may be confirmed, and the stamps of the
ledger do to each item what they do to it in an editable case. -/
theorem framed_and_frozen (c : Case) :
    (∀ op, c.Framed op ((Case.apply op).run c).2) ∧
      (c.IsFrozen →
        (∀ ops : List CaseOperation, (∀ op ∈ ops, op.IsLocal) →
          (∀ op ∈ ops, ¬c.Succeeds op) ∧ c.after ops = c) ∧
        (∀ (kind : ItemKind) (actor : Identity) (key : kind.Key),
          c.canPrePublishOrAcknowledge kind actor key = false ∧
            c.canPreAcknowledge kind actor key = false) ∧
        ∀ e : Case, e.IsEditable → ∀ (kind : ItemKind) (key : kind.Key),
          (e.collection kind).get? key = (c.collection kind).get? key →
            ∀ stamp, c.StampsAlike e kind stamp key) := by
  refine ⟨fun op => (apply_becomes op c).framed, fun frozen => ⟨fun ops => frozen_after frozen, ?_, ?_⟩⟩
  · intro kind actor key
    exact ⟨allows_of_isFrozen frozen kind key _, allows_of_isFrozen frozen kind key _⟩
  · intro e _ kind key same stamp
    exact stampsAlike_of_same same stamp

end Case

/-! ### An estate before and after it is closed -/

namespace Sample

/-- What the heir and the notary still try once the estate is closed. -/
def estateClosedTries : List CaseOperation :=
  [.removeItem .metadata ⟨"heir"⟩ "inventory", .addDelegate ⟨"notary"⟩ ⟨"bank"⟩,
    .performOnItem .metadata .requestReview ⟨"heir"⟩ "inventory"]

end Sample

namespace Case

/-- The letter is stamped after the closing as it would have been before. -/
theorem frozen_estate :
    ∃ made, Case.openNew Sample.estate .epoch = .ok made ∧
      let e := made.after Sample.estateHistory
      let c := e.after [.preClose]
      c.IsFrozen ∧ c.Framed (.close .epoch) ((Case.apply (.close .epoch)).run c).2 ∧
        c.after Sample.estateClosedTries = c ∧
        e.IsEditable ∧ e.Succeeds (.performOnItem .metadata .cancelPrePublishOrAcknowledge ⟨"heir"⟩ "letter") ∧
        c.StampsAlike e .metadata (.added .epoch) "letter" := by
  refine ⟨_, rfl, ?_⟩
  intro e c
  have frozen : c.IsFrozen := .inr (.inr (.inl (by decide +kernel +zetaReduce)))
  have editable : e.IsEditable := by decide +kernel +zetaReduce
  obtain ⟨framed, freeze⟩ := framed_and_frozen c
  obtain ⟨nothing, _, stamps⟩ := freeze frozen
  have inside : ∀ op ∈ Sample.estateClosedTries, op.IsLocal := by
    simp [Sample.estateClosedTries, CaseOperation.IsLocal]
  exact ⟨frozen, framed _, (nothing _ inside).2, editable, by decide +kernel +zetaReduce,
    stamps e editable .metadata "letter" (by decide +kernel +zetaReduce) _⟩

end Case
end CaseRegistry
