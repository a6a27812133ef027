import CaseRegistry.Ledger.Stamp
import CaseRegistry.Proofs.Case.Continuity

/-! What a stamp leaves on a case.

The operations that a stamp consists of write what the ledger says into a case, each
once. A case `Records` such an operation when the operation has nothing left to write
and would not be refused. An operation that succeeds is recorded afterwards
(`records_of_apply`), a recorded one succeeds and does nothing (`apply_of_records`), and
a later state of the case records what an earlier one did (`Records.continues`). From
this, a stamp is borne by the case it was put on and put there again without effect
(`stamp_ok`, `stamp_of_bears`), and whatever happens to the case meanwhile, a stamp that
is borne for good stays so (`BearsFirmly.continues`). -/
namespace CaseRegistry

/-- Whether an operation writes what the ledger says. -/
def CaseOperation.IsStamp : CaseOperation → Prop
  | .setCreatedDate _ | .setCreationFees _ | .close _ | .makeVoid _ | .voidAndReplace .. => True
  | .addCollectionItem .. | .stampItem .. => True
  | _ => False

theorem CaseOperation.IsStamp.not_isRemoval {op : CaseOperation} (h : op.IsStamp) : ¬op.IsRemoval := by
  cases op <;> first | exact id | exact absurd h id

theorem ChainStamp.isStamp_of_mem {stamp : ChainStamp} {on : Timestamp} {op : CaseOperation}
    (h : op ∈ stamp.operations on) : op.IsStamp := by
  unfold ChainStamp.operations at h
  split at h <;> simp only [List.mem_cons, List.not_mem_nil, or_false] at h
  · rcases h with rfl | rfl <;> trivial
  · rcases h with rfl | rfl <;> trivial
  all_goals rw [h]; trivial

namespace Case

variable {c c' later : Case}

/-- There is an item under a key of which a predicate holds. -/
def HasItem (c : Case) (kind : ItemKind) (key : kind.Key) (holds : Item kind → Prop) : Prop :=
  ∃ item, (c.collection kind).get? key = some item ∧ holds item

/-- What an operation of the ledger writes is written, where it may be written. -/
def Records (c : Case) : CaseOperation → Prop
  | .setCreatedDate _ => c.createdOn.isSome
  | .setCreationFees _ => c.creationFees.isSome
  | .close _ => c.IsInForce ∧ c.closedOn.isSome
  | .makeVoid _ | .voidAndReplace _ _ => c.IsInForce ∧ c.IsVoid
  | .addCollectionItem itemId _ _ =>
    c.kind = .collection ∧ itemId ∈ c.collectionItems.map CollectionEntry.itemId
  | .stampItem kind stamp key => c.HasItem kind key (·.Bears stamp)
  | _ => False

/-! ### One operation -/

theorem withOutcome_eq_ok {f : Case → Except Error (Case × Outcome)} {reply : CaseReply} :
    (apply.withOutcome f).run c = (.ok reply, c') ↔
      ∃ outcome, f c = .ok (c', outcome) ∧ reply = .outcome outcome := by
  unfold apply.withOutcome
  rw [Action.run_step]
  cases hf : f c with
  | error e => simp [Except.map]
  | ok p =>
    obtain ⟨after, outcome⟩ := p
    simp only [Except.map, Prod.mk.injEq, Except.ok.injEq]
    constructor
    · rintro ⟨rfl, rfl⟩
      exact ⟨outcome, ⟨rfl, rfl⟩, rfl⟩
    · rintro ⟨_, ⟨rfl, rfl⟩, rfl⟩
      exact ⟨rfl, rfl⟩

theorem withChanges_eq_ok {f : Case → Except Error (Case × ChangeSet)} {reply : CaseReply} :
    (apply.withChanges f).run c = (.ok reply, c') ↔
      ∃ changes, f c = .ok (c', changes) ∧ reply = .changes changes := by
  unfold apply.withChanges
  rw [Action.run_step]
  cases hf : f c with
  | error e => simp [Except.map]
  | ok p =>
    obtain ⟨after, changes⟩ := p
    simp only [Except.map, Prod.mk.injEq, Except.ok.injEq]
    constructor
    · rintro ⟨rfl, rfl⟩
      exact ⟨changes, ⟨rfl, rfl⟩, rfl⟩
    · rintro ⟨_, ⟨rfl, rfl⟩, rfl⟩
      exact ⟨rfl, rfl⟩

theorem run_apply_setCreatedDate (on : Timestamp) (c : Case) :
    (apply (.setCreatedDate on)).run c =
      (((setCreatedDate on).run c).1.map CaseReply.outcome, ((setCreatedDate on).run c).2) :=
  Action.run_bind_pure (setCreatedDate on) CaseReply.outcome c

theorem records_of_setCreatedDate (on : Timestamp) (c : Case) :
    ((setCreatedDate on).run c).2.Records (.setCreatedDate on) := by
  show ((setCreatedDate on).run c).2.createdOn.isSome
  rw [run_setCreatedDate]
  split
  · next h => exact h
  · split <;> rfl

theorem records_of_setCreationFees (fees : Fees) (c : Case) :
    (c.setCreationFees fees).1.Records (.setCreationFees fees) := by
  show (c.setCreationFees fees).1.creationFees.isSome
  unfold setCreationFees
  split
  · next h => exact h
  · rfl

theorem records_of_close {on : Timestamp} {outcome : Outcome} (h : c.close on = .ok (c', outcome)) :
    c'.IsInForce ∧ c'.closedOn.isSome := by
  simp only [close, bind_eq_ok, ensureStatus_inForce] at h
  obtain ⟨_, inForce, h⟩ := h
  split at h
  · next closed =>
    obtain ⟨rfl, _⟩ := Prod.mk.inj (pure_eq_ok.mp h)
    exact ⟨inForce, closed⟩
  · obtain ⟨rfl, _⟩ := Prod.mk.inj (pure_eq_ok.mp h)
    exact ⟨.inr rfl, rfl⟩

theorem close_of_records {on : Timestamp} (h : c.IsInForce ∧ c.closedOn.isSome) :
    c.close on = .ok (c, .alreadyApplied) := by
  simp only [close, bind_eq_ok, ensureStatus_inForce]
  exact ⟨(), h.1, by rw [if_pos h.2]; rfl⟩

theorem records_of_voidWith {replacer : Option CaseId} {on : Timestamp} {outcome : Outcome}
    (h : c.voidWith replacer on = .ok (c', outcome)) : c'.IsInForce ∧ c'.IsVoid := by
  simp only [voidWith, bind_eq_ok, ensureStatus_inForce] at h
  obtain ⟨_, inForce, h⟩ := h
  split at h
  · next isVoid =>
    obtain ⟨rfl, _⟩ := Prod.mk.inj (pure_eq_ok.mp h)
    exact ⟨inForce, isVoid⟩
  · obtain ⟨rfl, _⟩ := Prod.mk.inj (pure_eq_ok.mp h)
    exact ⟨inForce, _, rfl, rfl⟩

theorem voidWith_of_records {replacer : Option CaseId} {on : Timestamp} (h : c.IsInForce ∧ c.IsVoid) :
    c.voidWith replacer on = .ok (c, .alreadyApplied) := by
  simp only [voidWith, bind_eq_ok, ensureStatus_inForce]
  exact ⟨(), h.1, by rw [if_pos h.2]; rfl⟩

theorem records_of_addCollectionItem {itemId : String} {on : Timestamp} {fees : Fees}
    {outcome : Outcome} (h : c.addCollectionItem itemId on fees = .ok (c', outcome)) :
    c'.kind = .collection ∧ itemId ∈ c'.collectionItems.map CollectionEntry.itemId := by
  simp only [addCollectionItem, ensure_bind_eq_ok] at h
  obtain ⟨collection, h⟩ := h
  split at h
  · next listed =>
    obtain ⟨rfl, _⟩ := Prod.mk.inj (pure_eq_ok.mp h)
    exact ⟨collection, listed⟩
  · obtain ⟨rfl, _⟩ := Prod.mk.inj (pure_eq_ok.mp h)
    exact ⟨collection, by simp⟩

theorem addCollectionItem_of_records {itemId : String} {on : Timestamp} {fees : Fees}
    (h : c.kind = .collection ∧ itemId ∈ c.collectionItems.map CollectionEntry.itemId) :
    c.addCollectionItem itemId on fees = .ok (c, .alreadyApplied) := by
  simp only [addCollectionItem, ensure_bind_eq_ok]
  exact ⟨h.1, by rw [if_pos h.2]; rfl⟩

theorem stampItem_eq_ok {kind : ItemKind} {stamp : ItemStamp} {key : kind.Key} {changes : ChangeSet} :
    c.stampItem kind stamp key = .ok (c', changes) ↔
      ∃ item, (c.collection kind).get? key = some item ∧ changes = (item.stamp stamp).2 ∧
        c' = c.withItems kind ((c.collection kind).put key (item.stamp stamp).1) := by
  simp only [stampItem, onCollection_eq_ok, Collection.modify_eq_ok, Except.ok.injEq]
  constructor
  · rintro ⟨_, ⟨item, _, found, stamped, rfl⟩, rfl⟩
    exact ⟨item, found, by rw [stamped], by rw [stamped]⟩
  · rintro ⟨item, found, rfl, rfl⟩
    exact ⟨_, ⟨item, _, found, rfl, rfl⟩, rfl⟩

theorem records_of_stampItem {kind : ItemKind} {stamp : ItemStamp} {key : kind.Key}
    {changes : ChangeSet} (h : c.stampItem kind stamp key = .ok (c', changes)) :
    c'.HasItem kind key (·.Bears stamp) := by
  obtain ⟨item, found, _, rfl⟩ := stampItem_eq_ok.mp h
  refine ⟨(item.stamp stamp).1, ?_, item.bears_stamp stamp⟩
  rw [collection_withItems]
  exact Collection.get?_put_self found (item.stamp_continues stamp).key

theorem stampItem_of_records {kind : ItemKind} {stamp : ItemStamp} {key : kind.Key}
    (h : c.HasItem kind key (·.Bears stamp)) : c.stampItem kind stamp key = .ok (c, ∅) := by
  obtain ⟨item, found, bears⟩ := h
  refine stampItem_eq_ok.mpr ⟨item, found, ?_, ?_⟩
  · rw [Item.stamp_of_bears bears]
  · rw [Item.stamp_of_bears bears, Collection.put_get? found, withItems_collection]

/-- A ledger operation that goes through is recorded in the case after it. -/
theorem records_of_apply {op : CaseOperation} (hs : op.IsStamp) {reply : CaseReply}
    (h : (apply op).run c = (.ok reply, c')) : c'.Records op := by
  cases op with
  | setCreatedDate on =>
    rw [run_apply_setCreatedDate] at h
    rw [← (Prod.mk.inj h).2]
    exact records_of_setCreatedDate on c
  | setCreationFees fees =>
    obtain ⟨outcome, done, _⟩ := withOutcome_eq_ok.mp h
    have := records_of_setCreationFees fees c
    rwa [Except.ok.inj done] at this
  | close on =>
    obtain ⟨outcome, done, _⟩ := withOutcome_eq_ok.mp h
    exact records_of_close done
  | makeVoid on =>
    obtain ⟨outcome, done, _⟩ := withOutcome_eq_ok.mp h
    exact records_of_voidWith done
  | voidAndReplace replacer on =>
    obtain ⟨outcome, done, _⟩ := withOutcome_eq_ok.mp h
    exact records_of_voidWith done
  | addCollectionItem itemId on fees =>
    obtain ⟨outcome, done, _⟩ := withOutcome_eq_ok.mp h
    exact records_of_addCollectionItem done
  | stampItem kind stamp key =>
    obtain ⟨changes, done, _⟩ := withChanges_eq_ok.mp h
    exact records_of_stampItem done
  | _ => exact False.elim hs

/-- What is recorded goes through once more and changes nothing. -/
theorem apply_of_records {op : CaseOperation} (h : c.Records op) :
    ∃ reply, (apply op).run c = (.ok reply, c) ∧ reply.changeSet = ∅ := by
  cases op with
  | setCreatedDate on =>
    have created : c.createdOn.isSome := h
    refine ⟨.outcome .alreadyApplied, ?_, rfl⟩
    rw [run_apply_setCreatedDate, run_setCreatedDate, if_pos created]
    rfl
  | setCreationFees fees =>
    have charged : c.setCreationFees fees = (c, .alreadyApplied) := if_pos h
    exact ⟨_, withOutcome_eq_ok.mpr ⟨_, congrArg Except.ok charged, rfl⟩, rfl⟩
  | close on => exact ⟨_, withOutcome_eq_ok.mpr ⟨_, close_of_records h, rfl⟩, rfl⟩
  | makeVoid on => exact ⟨_, withOutcome_eq_ok.mpr ⟨_, voidWith_of_records h, rfl⟩, rfl⟩
  | voidAndReplace replacer on => exact ⟨_, withOutcome_eq_ok.mpr ⟨_, voidWith_of_records h, rfl⟩, rfl⟩
  | addCollectionItem itemId on fees =>
    exact ⟨_, withOutcome_eq_ok.mpr ⟨_, addCollectionItem_of_records h, rfl⟩, rfl⟩
  | stampItem kind stamp key => exact ⟨_, withChanges_eq_ok.mpr ⟨_, stampItem_of_records h, rfl⟩, rfl⟩
  | _ => exact False.elim h

/-- A ledger operation inserts, deletes and renumbers nothing. -/
theorem isUpdateOnly_of_apply {op : CaseOperation} (hs : op.IsStamp) {reply : CaseReply}
    (h : (apply op).run c = (.ok reply, c')) : reply.changeSet.IsUpdateOnly := by
  cases op with
  | stampItem kind stamp key =>
    obtain ⟨changes, done, rfl⟩ := withChanges_eq_ok.mp h
    obtain ⟨item, _, rfl, _⟩ := stampItem_eq_ok.mp done
    exact item.stamp_changes stamp
  | setCreatedDate on =>
    rw [run_apply_setCreatedDate] at h
    obtain ⟨outcome, _, rfl⟩ := map_eq_ok.mp (Prod.mk.inj h).1
    exact ChangeSet.isUpdateOnly_empty
  | setCreationFees _ | close _ | makeVoid _ | voidAndReplace _ _ | addCollectionItem _ _ _ =>
    obtain ⟨outcome, _, rfl⟩ := withOutcome_eq_ok.mp h
    exact ChangeSet.isUpdateOnly_empty
  | _ => exact False.elim hs

/-! ### What later states record -/

variable {kept : ∀ {kind : ItemKind}, Item kind → Prop}

/-- An item that is kept is there later, as a later state of itself. -/
theorem Continues.hasItem (h : c.Continues kept later) {kind : ItemKind} {key : kind.Key}
    {holds : Item kind → Prop}
    (stays : ∀ {item after : Item kind}, item.Continues after → holds item → holds after)
    (keep : ∀ item, holds item → kept item) (has : c.HasItem kind key holds) :
    later.HasItem kind key holds := by
  obtain ⟨item, found, hi⟩ := has
  obtain ⟨after, found', continues⟩ := h.items kind key item found (keep item hi)
  exact ⟨after, found', stays continues hi⟩

/-- What a case records its later states record, provided that the stamped item is kept. -/
theorem Records.continues (h : c.Continues kept later) {op : CaseOperation} (hr : c.Records op)
    (keep : ∀ kind stamp key, op = .stampItem kind stamp key → c.HasItem kind key kept) :
    later.Records op := by
  cases op with
  | setCreatedDate on =>
    obtain ⟨on', hon⟩ := Option.isSome_iff_exists.mp hr
    exact Option.isSome_iff_exists.mpr ⟨on', h.createdOn on' hon⟩
  | setCreationFees fees =>
    obtain ⟨fees', hf⟩ := Option.isSome_iff_exists.mp hr
    exact Option.isSome_iff_exists.mpr ⟨fees', h.creationFees fees' hf⟩
  | close on =>
    obtain ⟨on', hon⟩ := Option.isSome_iff_exists.mp hr.2
    exact ⟨h.inForce hr.1, Option.isSome_iff_exists.mpr ⟨on', h.closedOn on' hon⟩⟩
  | makeVoid on => exact ⟨h.inForce hr.1, h.isVoid hr.2⟩
  | voidAndReplace replacer on => exact ⟨h.inForce hr.1, h.isVoid hr.2⟩
  | addCollectionItem itemId on fees =>
    obtain ⟨collection, listed⟩ := hr
    exact ⟨h.kind.trans collection, (h.collectionItems.map _).subset listed⟩
  | stampItem kind stamp key =>
    obtain ⟨item, found, bears⟩ := hr
    obtain ⟨item', found', hk⟩ := keep kind stamp key rfl
    obtain rfl : item = item' := Option.some.inj (found.symm.trans found')
    obtain ⟨after, hafter, continues⟩ := h.items kind key item found hk
    exact ⟨after, hafter, continues.bears bears⟩
  | _ => exact False.elim hr

/-! ### Stamps -/

/-- A case bears a stamp if all that the stamp says is written. -/
def Bears (c : Case) (stamp : ChainStamp) (on : Timestamp) : Prop :=
  ∀ op ∈ stamp.operations on, c.Records op

/-- A stamp that is borne for good: where it only acknowledges an item, the ledger has confirmed
the item, so that nobody removes it any more. -/
structure BearsFirmly (c : Case) (stamp : ChainStamp) (on : Timestamp) : Prop where
  bears : c.Bears stamp on
  confirmed : ∀ kind key, stamp = .itemAcknowledged kind key → c.HasItem kind key (¬·.IsDraft)

/-- Ledger operations done one after the other are all recorded in the end. -/
theorem performFrom_ok {operations : List CaseOperation} (stamps : ∀ op ∈ operations, op.IsStamp)
    {total changes : ChangeSet} (h : (performFrom total operations).run c = (.ok changes, c')) :
    c.Continues (fun _ => True) c' ∧ (∀ op ∈ operations, c'.Records op) ∧
      (total.IsUpdateOnly → changes.IsUpdateOnly) := by
  induction operations generalizing c total with
  | nil =>
    obtain ⟨hchanges, rfl⟩ := Prod.mk.inj h
    exact ⟨.refl c, nofun, fun updates => Except.ok.inj hchanges ▸ updates⟩
  | cons op rest ih =>
    have hop := stamps op List.mem_cons_self
    have hrest := fun other hother => stamps other (List.mem_cons_of_mem op hother)
    obtain ⟨reply, c₁, ran, h⟩ := Action.run_bind_eq_ok.mp h
    obtain ⟨continues', recorded, updates⟩ := ih hrest h
    have continues : c.Continues (fun _ => True) c₁ := by
      have := apply_continues_all hop.not_isRemoval c
      rwa [ran] at this
    have first : c'.Records op := (records_of_apply hop ran).continues continues' fun kind stamp key same => by
      subst same
      obtain ⟨item, found, _⟩ := records_of_apply hop ran
      exact ⟨item, found, trivial⟩
    refine ⟨continues.trans (fun _ _ => trivial) continues', ?_, fun ht =>
      updates (ht.merge (isUpdateOnly_of_apply hop ran))⟩
    intro other hother
    rcases List.mem_cons.mp hother with rfl | hother
    · exact first
    · exact recorded other hother

/-- Ledger operations that are recorded change nothing when they are done again. -/
theorem performFrom_of_records {operations : List CaseOperation} (h : ∀ op ∈ operations, c.Records op) :
    (performFrom ∅ operations).run c = (.ok ∅, c) := by
  induction operations with
  | nil => rfl
  | cons op rest ih =>
    obtain ⟨reply, ran, none⟩ := apply_of_records (h op List.mem_cons_self)
    rw [performFrom, Action.run_bind_of_ok ran, none]
    exact ih fun other hother => h other (List.mem_cons_of_mem op hother)

/-- A stamp that goes through is borne, and its change set tells of updates alone. -/
theorem stamp_ok {stamp : ChainStamp} {on : Timestamp} {changes : ChangeSet}
    (h : (stamp.apply on).run c = (.ok changes, c')) :
    c.Continues (fun _ => True) c' ∧ c'.Bears stamp on ∧ changes.IsUpdateOnly := by
  obtain ⟨continues, recorded, updates⟩ := performFrom_ok (fun _ => ChainStamp.isStamp_of_mem) h
  exact ⟨continues, recorded, updates ChangeSet.isUpdateOnly_empty⟩

/-- A stamp that a case bears goes through again, and nothing comes of it. -/
theorem stamp_of_bears {stamp : ChainStamp} {on : Timestamp} (h : c.Bears stamp on) :
    (stamp.apply on).run c = (.ok ∅, c) :=
  performFrom_of_records h

/-- As long as no item is removed, what is borne stays borne. -/
theorem Bears.continues {stamp : ChainStamp} {on : Timestamp} (hb : c.Bears stamp on)
    (h : c.Continues (fun _ => True) later) : later.Bears stamp on := by
  intro op hop
  refine (hb op hop).continues h fun kind itemStamp key same => ?_
  subst same
  obtain ⟨item, found, _⟩ := hb _ hop
  exact ⟨item, found, trivial⟩

/-- A case that bears the stamp by which an item was added has the item confirmed. -/
theorem Bears.hasItem {kind : ItemKind} {key : kind.Key} {fees : Fees} {on : Timestamp}
    (h : c.Bears (.itemAdded kind key fees) on) : c.HasItem kind key (¬·.IsDraft) := by
  obtain ⟨item, found, added⟩ := h (.stampItem kind (.added on) key) List.mem_cons_self
  exact ⟨item, found, Option.isSome_iff_ne_none.mp added⟩

/-- The item of a stamp that is borne for good is confirmed. -/
theorem BearsFirmly.hasItem {stamp : ChainStamp} {on : Timestamp} (h : c.BearsFirmly stamp on)
    {kind : ItemKind} {itemStamp : ItemStamp} {key : kind.Key}
    (hop : .stampItem kind itemStamp key ∈ stamp.operations on) : c.HasItem kind key (¬·.IsDraft) := by
  cases stamp with
  | itemAdded kind' key' fees =>
    have same : kind' = kind ∧ HEq key' key := by
      rcases List.mem_cons.mp hop with he | hop
      · cases he; exact ⟨rfl, .rfl⟩
      · cases List.mem_singleton.mp hop; exact ⟨rfl, .rfl⟩
    obtain ⟨rfl, rfl⟩ := same
    exact h.bears.hasItem
  | itemAcknowledged kind' key' =>
    cases List.mem_singleton.mp hop
    exact h.confirmed kind key rfl
  | created fees => simp [ChainStamp.operations] at hop
  | closed => simp [ChainStamp.operations] at hop
  | voided replacer => cases replacer <;> simp [ChainStamp.operations] at hop
  | collectionItemAdded itemId fees => simp [ChainStamp.operations] at hop

/-- Whatever is done to a case, what it bears for good it bears later. -/
theorem BearsFirmly.continues {stamp : ChainStamp} {on : Timestamp} (hb : c.BearsFirmly stamp on)
    (h : c.Continues (¬·.IsDraft) later) : later.BearsFirmly stamp on where
  bears op hop := (hb.bears op hop).continues h fun kind itemStamp key same => by
    subst same
    exact hb.hasItem hop
  confirmed kind key same :=
    h.hasItem (fun continues => continues.not_isDraft) (fun _ hi => hi) (hb.confirmed kind key same)

end Case
end CaseRegistry
