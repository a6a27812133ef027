import CaseRegistry.Proofs.Item.Becoming

/-! What an item keeps.

Whatever is done to an item, by somebody or by the ledger, the item after it is a
later state of the same item (`Item.Continues`): its key, its submitter and its mode
stay, and each stamp that the ledger has set stays as it was set. What somebody does
moves the review and the confirmation and nothing else (`Performed.moved`). -/
namespace CaseRegistry.Item

variable {kind : ItemKind}

/-- What a later state of an item keeps of an earlier one. -/
structure Continues (item later : Item kind) : Prop where
  key : later.key = item.key
  submitter : later.submitter = item.submitter
  mode : later.mode = item.mode
  addedOn : ∀ on, item.addedOn = some on → later.addedOn = some on
  fees : ∀ fees, item.fees = some fees → later.fees = some fees
  acknowledgedOn : ∀ on, item.acknowledgedOn = some on → later.acknowledgedOn = some on

theorem Continues.refl (item : Item kind) : item.Continues item :=
  ⟨rfl, rfl, rfl, fun _ h => h, fun _ h => h, fun _ h => h⟩

theorem Continues.trans {item later last : Item kind} (h : item.Continues later)
    (h' : later.Continues last) : item.Continues last :=
  ⟨h'.key.trans h.key, h'.submitter.trans h.submitter, h'.mode.trans h.mode,
    fun on hon => h'.addedOn on (h.addedOn on hon), fun fees hf => h'.fees fees (h.fees fees hf),
    fun on hon => h'.acknowledgedOn on (h.acknowledgedOn on hon)⟩

/-- An item that the ledger has confirmed stays confirmed. -/
theorem Continues.not_isDraft {item later : Item kind} (h : item.Continues later)
    (hd : ¬item.IsDraft) : ¬later.IsDraft := by
  obtain ⟨on, hon⟩ := Option.ne_none_iff_exists'.mp hd
  unfold IsDraft
  rw [h.addedOn on hon]
  exact Option.some_ne_none on

/-- All of an item but its place in the listing. -/
def record (item : Item kind) : Item kind := { item with index := 0 }

@[simp] theorem record_reindexed (item : Item kind) (n : Nat) :
    Item.record { item with index := n } = item.record := rfl

theorem eq_of_record {item later : Item kind} (same : later.record = item.record)
    (place : later.index = item.index) : later = item := by
  have whole : ∀ x : Item kind, x = { x.record with index := x.index } := fun _ => rfl
  rw [whole later, whole item, same, place]

/-- A new place in the listing, and nothing else. -/
theorem continues_reindexed (item : Item kind) (n : Nat) : item.Continues { item with index := n } :=
  ⟨rfl, rfl, rfl, fun _ h => h, fun _ h => h, fun _ h => h⟩

/-! ### Actions -/

/-- The item with another standing in its review and confirmation. -/
def moved (item : Item kind) (status : ItemStatus) (review : Option Review) (redrafted : Bool)
    (confirmedBy : Option Identity) : Item kind :=
  { item with
    status, review
    redraftedAfterRejection := redrafted
    preConfirmedBy := confirmedBy }

theorem continues_moved (item : Item kind) (status : ItemStatus) (review : Option Review)
    (redrafted : Bool) (confirmedBy : Option Identity) :
    item.Continues (item.moved status review redrafted confirmedBy) :=
  ⟨rfl, rfl, rfl, fun _ h => h, fun _ h => h, fun _ h => h⟩

theorem Performed.moved {ctx : CaseContext} {actor : Identity} {item later : Item kind} {step : ItemStep}
    (h : item.Performed ctx actor step later) :
    ∃ status review redrafted confirmedBy, later = item.moved status review redrafted confirmedBy := by
  cases h <;> exact ⟨_, _, _, _, rfl⟩

theorem Performed.continues {ctx : CaseContext} {actor : Identity} {item later : Item kind}
    {step : ItemStep} (h : item.Performed ctx actor step later) : item.Continues later := by
  obtain ⟨status, review, redrafted, confirmedBy, rfl⟩ := h.moved
  exact item.continues_moved status review redrafted confirmedBy

/-! ### Stamps -/

theorem Stamped.continues {stamp : ItemStamp} {item later : Item kind} (h : item.Stamped stamp later) :
    item.Continues later := by
  cases h with
  | same => exact .refl item
  | added fresh => exact { Continues.refl item with addedOn := by simp [fresh] }
  | fees fresh => exact { Continues.refl item with fees := by simp [fresh] }
  | acknowledged fresh => exact { Continues.refl item with acknowledgedOn := by simp [fresh] }

theorem stamp_continues (s : ItemStamp) (item : Item kind) : item.Continues (item.stamp s).1 :=
  (item.stamped_stamp s).continues

theorem Stamped.bears {stamp : ItemStamp} {item later : Item kind} (h : item.Stamped stamp later) :
    later.Bears stamp := by
  cases h with
  | same again => exact again
  | added | fees | acknowledged => rfl

theorem bears_stamp (s : ItemStamp) (item : Item kind) : (item.stamp s).1.Bears s :=
  (item.stamped_stamp s).bears

/-- A stamp that an item bears does nothing to it. -/
theorem stamp_of_bears {s : ItemStamp} {item : Item kind} (h : item.Bears s) :
    item.stamp s = (item, ∅) := by
  cases s with
  | added on => exact if_pos h
  | fees fees => exact if_pos h
  | acknowledged on => exact if_pos h

/-- A stamp updates an item or does nothing. -/
theorem stamp_changes (s : ItemStamp) (item : Item kind) : (item.stamp s).2.IsUpdateOnly := by
  cases s with
  | added on =>
    show (item.setAddedOn on).2.IsUpdateOnly
    unfold setAddedOn
    split
    · exact ChangeSet.isUpdateOnly_empty
    · exact ChangeSet.isUpdateOnly_update _
  | fees fees =>
    show (item.setFees fees).2.IsUpdateOnly
    unfold setFees
    split
    · exact ChangeSet.isUpdateOnly_empty
    · exact ChangeSet.isUpdateOnly_update _
  | acknowledged on =>
    show (item.setAcknowledgedOn on).2.IsUpdateOnly
    unfold setAcknowledgedOn
    split
    · exact ChangeSet.isUpdateOnly_empty
    · exact ChangeSet.isUpdateOnly_update _

theorem Continues.bears {s : ItemStamp} {item later : Item kind} (h : item.Continues later)
    (hb : item.Bears s) : later.Bears s := by
  cases s with
  | added on =>
    obtain ⟨on', hon⟩ := Option.isSome_iff_exists.mp hb
    exact Option.isSome_iff_exists.mpr ⟨on', h.addedOn on' hon⟩
  | fees fees =>
    obtain ⟨fees', hf⟩ := Option.isSome_iff_exists.mp hb
    exact Option.isSome_iff_exists.mpr ⟨fees', h.fees fees' hf⟩
  | acknowledged on =>
    obtain ⟨on', hon⟩ := Option.isSome_iff_exists.mp hb
    exact Option.isSome_iff_exists.mpr ⟨on', h.acknowledgedOn on' hon⟩

/-! ### Delivery of files -/

theorem continues_carrying {file : Item .file} {payload : FilePayload}
    (same : payload.hash = file.payload.hash) : file.Continues { file with payload } :=
  { Continues.refl file with key := same }

theorem restrictDelivery_continues (restricted : Bool) (file : Item .file) :
    file.Continues (Collection.restrictDelivery restricted file).1 := by
  obtain ⟨payload, same, carries⟩ := restrictDelivery_carries restricted file
  rw [carries]
  exact continues_carrying same

theorem deliverCopy_continues {copy : DeliveredCopy} {file later : Item .file} {changes : ChangeSet}
    (h : Collection.deliverCopy copy file = .ok (later, changes)) : file.Continues later := by
  obtain ⟨payload, same, rfl⟩ := deliverCopy_carries h
  exact continues_carrying same

end CaseRegistry.Item
