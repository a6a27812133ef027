import CaseRegistry.Item.Collection

/-! What an action or a stamp makes of an item.

`Item.Performed` lists the actions, each with the rules that it asks for and the item that
it leads to; an action succeeds exactly when its rules hold (`perform_eq_ok_iff`).
`Item.Stamped` does the same for the stamps of the ledger, which ask for no rules and write
once (`stamped_stamp`). What actions or stamps keep of an item is shown by going through
these lists, to begin with its key and its place (`InPlace`). -/
namespace CaseRegistry.Item

variable {kind : ItemKind} {ctx : CaseContext} {actor : Identity} {item later : Item kind}

/-- An item under the same key and at the same place. -/
structure InPlace (item later : Item kind) : Prop where
  key : later.key = item.key
  index : later.index = item.index

/-! ### Actions -/

/-- An item that may be confirmed, by whoever handles it. -/
structure IsConfirmable (item : Item kind) (ctx : CaseContext) : Prop where
  opened : ctx.status = .opened
  draft : item.IsDraft
  /-- Accepted in its review, unless the owner submitted it. -/
  cleared : item.status = .reviewAccepted ∨ item.status = .draft ∧ item.submitter = ctx.owner

/-- What an action makes of an item. -/
inductive Performed (item : Item kind) (ctx : CaseContext) (actor : Identity) :
    ItemStep → Item kind → Prop where
  | requestReview (opened : ctx.status = .opened) (handled : item.IsHandledBy actor ctx)
      (draft : item.IsDraft) (standing : item.status = .draft ∨ item.status = .reviewRejected) :
      item.Performed ctx actor .requestReview { item with
        status := .reviewPending
        review := none
        redraftedAfterRejection :=
          item.redraftedAfterRejection || item.status = .reviewRejected }
  | accept (byOwner : actor = ctx.owner) (pending : item.status = .reviewPending) :
      item.Performed ctx actor .accept
        { item with status := .reviewAccepted, review := some ⟨.accepted, none⟩ }
  | reject {reason : String} (byOwner : actor = ctx.owner) (pending : item.status = .reviewPending) :
      item.Performed ctx actor (.reject reason)
        { item with status := .reviewRejected, review := some ⟨.rejected, some reason⟩ }
  | prePublishOrAcknowledge (direct : item.mode = .direct) (handled : item.IsHandledBy actor ctx)
      (confirmable : item.IsConfirmable ctx) :
      item.Performed ctx actor .prePublishOrAcknowledge { item with
        status := if actor = ctx.owner then .acknowledged else .published
        preConfirmedBy := some actor }
  | preAcknowledge (delegated : item.mode = .delegated) (handled : item.IsHandledBy actor ctx)
      (confirmable : item.IsConfirmable ctx) :
      item.Performed ctx actor .preAcknowledge
        { item with status := .acknowledged, preConfirmedBy := some actor }
  | cancelPrePublishOrAcknowledge (direct : item.mode = .direct)
      (handled : item.IsHandledBy actor ctx) (draft : item.IsDraft)
      (standing : item.status = .published ∨ item.status = .acknowledged) :
      item.Performed ctx actor .cancelPrePublishOrAcknowledge
        { item with status := item.statusBeforeConfirmation, preConfirmedBy := none }
  | cancelPreAcknowledge (delegated : item.mode = .delegated)
      (handled : item.IsHandledBy actor ctx) (draft : item.IsDraft)
      (standing : item.status = .published ∨ item.status = .acknowledged) :
      item.Performed ctx actor .cancelPreAcknowledge
        { item with status := item.statusBeforeConfirmation, preConfirmedBy := none }

theorem ensureUnconfirmed_eq_ok {action : ItemAction} {u : Unit} :
    item.ensureUnconfirmed action = .ok u ↔ item.IsDraft :=
  ensure_eq_ok

theorem checkConfirmable_eq_ok {action : ItemAction} {u : Unit} :
    item.checkConfirmable action ctx = .ok u ↔ item.IsConfirmable ctx := by
  unfold checkConfirmable
  simp only [bind_eq_ok, ensure_eq_ok, ensureUnconfirmed_eq_ok]
  constructor
  · rintro ⟨_, opened, _, draft, cleared⟩
    refine ⟨opened, draft, ?_⟩
    cases status : item.status <;> simp_all [RequiresReview]
  · rintro ⟨opened, draft, cleared⟩
    refine ⟨(), opened, (), draft, ?_⟩
    obtain reviewed | ⟨status, own⟩ := cleared
    · rw [reviewed]
      rfl
    · rw [status]
      simpa [RequiresReview] using own

theorem Performed.perform {step : ItemStep} (h : item.Performed ctx actor step later) :
    item.perform step actor ctx = .ok (later, .update item.ref) := by
  cases h with
  | requestReview opened handled draft standing =>
    simp only [Item.perform, Item.requestReview, bind_eq_ok, pure_eq_ok, ensure_eq_ok,
      ensureUnconfirmed_eq_ok]
    exact ⟨(), opened, (), handled, (), draft, (), standing, rfl⟩
  | accept byOwner pending =>
    simp only [Item.perform, Item.accept, decideReview, bind_eq_ok, pure_eq_ok, ensure_eq_ok]
    exact ⟨(), byOwner, (), pending, rfl⟩
  | reject byOwner pending =>
    simp only [Item.perform, Item.reject, decideReview, bind_eq_ok, pure_eq_ok, ensure_eq_ok]
    exact ⟨(), byOwner, (), pending, rfl⟩
  | prePublishOrAcknowledge direct handled confirmable =>
    simp only [Item.perform, Item.prePublishOrAcknowledge, checkPrePublishOrAcknowledge, bind_eq_ok,
      pure_eq_ok, ensure_eq_ok, checkConfirmable_eq_ok]
    exact ⟨(), ⟨(), direct, (), handled, confirmable⟩, rfl⟩
  | preAcknowledge delegated handled confirmable =>
    simp only [Item.perform, Item.preAcknowledge, checkPreAcknowledge, bind_eq_ok, pure_eq_ok, ensure_eq_ok,
      checkConfirmable_eq_ok]
    exact ⟨(), ⟨(), delegated, (), handled, confirmable⟩, rfl⟩
  | cancelPrePublishOrAcknowledge direct handled draft standing =>
    simp only [Item.perform, Item.cancelPrePublishOrAcknowledge, cancelConfirmation, bind_eq_ok, pure_eq_ok,
      ensure_eq_ok, ensureUnconfirmed_eq_ok]
    exact ⟨(), direct, (), handled, (), draft, (), standing, rfl⟩
  | cancelPreAcknowledge delegated handled draft standing =>
    simp only [Item.perform, Item.cancelPreAcknowledge, cancelConfirmation, bind_eq_ok, pure_eq_ok,
      ensure_eq_ok, ensureUnconfirmed_eq_ok]
    exact ⟨(), delegated, (), handled, (), draft, (), standing, rfl⟩

theorem performed_of_perform {step : ItemStep} {changes : ChangeSet}
    (h : item.perform step actor ctx = .ok (later, changes)) : item.Performed ctx actor step later := by
  cases step with
  | requestReview =>
    simp only [perform, requestReview, noted, bind_eq_ok, pure_eq_ok, ensure_eq_ok, ensureUnconfirmed_eq_ok,
      Prod.mk.injEq] at h
    obtain ⟨_, opened, _, handled, _, draft, _, standing, rfl, _⟩ := h
    exact .requestReview opened handled draft standing
  | accept =>
    simp only [perform, accept, decideReview, noted, bind_eq_ok, pure_eq_ok, ensure_eq_ok, Prod.mk.injEq] at h
    obtain ⟨_, byOwner, _, pending, rfl, _⟩ := h
    exact .accept byOwner pending
  | reject reason =>
    simp only [perform, reject, decideReview, noted, bind_eq_ok, pure_eq_ok, ensure_eq_ok, Prod.mk.injEq] at h
    obtain ⟨_, byOwner, _, pending, rfl, _⟩ := h
    exact .reject byOwner pending
  | prePublishOrAcknowledge =>
    simp only [perform, prePublishOrAcknowledge, checkPrePublishOrAcknowledge, noted, bind_eq_ok, pure_eq_ok,
      ensure_eq_ok, checkConfirmable_eq_ok, Prod.mk.injEq] at h
    obtain ⟨_, ⟨_, direct, _, handled, confirmable⟩, rfl, _⟩ := h
    exact .prePublishOrAcknowledge direct handled confirmable
  | preAcknowledge =>
    simp only [perform, preAcknowledge, checkPreAcknowledge, noted, bind_eq_ok, pure_eq_ok, ensure_eq_ok,
      checkConfirmable_eq_ok, Prod.mk.injEq] at h
    obtain ⟨_, ⟨_, delegated, _, handled, confirmable⟩, rfl, _⟩ := h
    exact .preAcknowledge delegated handled confirmable
  | cancelPrePublishOrAcknowledge =>
    simp only [perform, cancelPrePublishOrAcknowledge, cancelConfirmation, noted, bind_eq_ok, pure_eq_ok,
      ensure_eq_ok, ensureUnconfirmed_eq_ok, Prod.mk.injEq] at h
    obtain ⟨_, direct, _, handled, _, draft, _, standing, rfl, _⟩ := h
    exact .cancelPrePublishOrAcknowledge direct handled draft standing
  | cancelPreAcknowledge =>
    simp only [perform, cancelPreAcknowledge, cancelConfirmation, noted, bind_eq_ok, pure_eq_ok,
      ensure_eq_ok, ensureUnconfirmed_eq_ok, Prod.mk.injEq] at h
    obtain ⟨_, delegated, _, handled, _, draft, _, standing, rfl, _⟩ := h
    exact .cancelPreAcknowledge delegated handled draft standing

/-- An action succeeds exactly when its rules hold; it leads where it says and notes the update. -/
theorem perform_eq_ok_iff {step : ItemStep} {changes : ChangeSet} :
    item.perform step actor ctx = .ok (later, changes) ↔
      item.Performed ctx actor step later ∧ changes = .update item.ref := by
  constructor
  · intro h
    have performed := performed_of_perform h
    have same := performed.perform.symm.trans h
    exact ⟨performed, (Prod.mk.inj (Except.ok.inj same)).2.symm⟩
  · rintro ⟨performed, rfl⟩
    exact performed.perform

theorem Performed.inPlace {step : ItemStep} (h : item.Performed ctx actor step later) :
    item.InPlace later := by
  cases h <;> exact ⟨rfl, rfl⟩

/-! ### Stamps -/

/-- Where an item stands once the ledger has taken it in. -/
def statusOnceAdded (item : Item kind) : ItemStatus :=
  if item.status = .published ∨ item.status = .acknowledged then item.status else .published

/-- What a stamp sets is set. -/
def Bears (item : Item kind) : ItemStamp → Prop
  | .added _ => item.addedOn.isSome
  | .fees _ => item.fees.isSome
  | .acknowledged _ => item.acknowledgedOn.isSome

/-- What a stamp makes of an item. -/
inductive Stamped (item : Item kind) : ItemStamp → Item kind → Prop where
  | same {stamp : ItemStamp} (again : item.Bears stamp) : item.Stamped stamp item
  | added {on : Timestamp} (fresh : item.addedOn = none) :
      item.Stamped (.added on) { item with addedOn := some on, status := item.statusOnceAdded }
  | fees {fees : Fees} (fresh : item.fees = none) :
      item.Stamped (.fees fees) { item with fees := some fees }
  | acknowledged {on : Timestamp} (fresh : item.acknowledgedOn = none) :
      item.Stamped (.acknowledged on) { item with acknowledgedOn := some on, status := .acknowledged }

theorem stamped_stamp (stamp : ItemStamp) (item : Item kind) :
    item.Stamped stamp (item.stamp stamp).1 := by
  cases stamp with
  | added on =>
    show item.Stamped (.added on) (item.setAddedOn on).1
    unfold setAddedOn
    split
    · next again => exact .same again
    · next unset => exact .added (Option.not_isSome_iff_eq_none.mp unset)
  | fees fees =>
    show item.Stamped (.fees fees) (item.setFees fees).1
    unfold setFees
    split
    · next again => exact .same again
    · next unset => exact .fees (Option.not_isSome_iff_eq_none.mp unset)
  | acknowledged on =>
    show item.Stamped (.acknowledged on) (item.setAcknowledgedOn on).1
    unfold setAcknowledgedOn
    split
    · next again => exact .same again
    · next unset => exact .acknowledged (Option.not_isSome_iff_eq_none.mp unset)

theorem Stamped.inPlace {stamp : ItemStamp} (h : item.Stamped stamp later) : item.InPlace later := by
  cases h <;> exact ⟨rfl, rfl⟩

/-! ### Delivery of files -/

/-- Delivery changes what a file carries, but for the hash. -/
theorem restrictDelivery_carries (restricted : Bool) (file : Item .file) :
    ∃ payload : FilePayload, payload.hash = file.payload.hash ∧
      (Collection.restrictDelivery restricted file).1 = { file with payload } := by
  unfold Collection.restrictDelivery
  split
  · exact ⟨file.payload, rfl, rfl⟩
  · exact ⟨{ file.payload with restrictedDelivery := restricted }, rfl, rfl⟩

theorem deliverCopy_carries {copy : DeliveredCopy} {file later : Item .file} {changes : ChangeSet}
    (h : Collection.deliverCopy copy file = .ok (later, changes)) :
    ∃ payload : FilePayload, payload.hash = file.payload.hash ∧ later = { file with payload } := by
  simp only [Collection.deliverCopy, ensure_bind_eq_ok, pure_eq_ok] at h
  obtain ⟨_, _, _, hlater⟩ := h
  exact ⟨{ file.payload with delivered := file.payload.delivered ++ [copy] }, rfl,
    (Prod.mk.inj hlater).1.symm⟩

theorem inPlace_carrying {file : Item .file} {payload : FilePayload}
    (same : payload.hash = file.payload.hash) : file.InPlace { file with payload } :=
  ⟨same, rfl⟩

end CaseRegistry.Item
