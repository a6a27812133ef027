import CaseRegistry.ChangeSet
import CaseRegistry.Error

/-!
Items, and what is done to one item. Actions are done by somebody and keep to the rules of the
review and of the confirmation protocol of the item; stamps come from the ledger, which is not
asked for a reason, and each is set once. Every operation gives the item it leads to and the
change set that tells of it.
-/
namespace CaseRegistry

/-- What the rules on items look at in the case around them. -/
structure CaseContext where
  owner : Identity
  /-- The address of the requester, if it has one. -/
  requester : Option Identity
  status : CaseStatus
deriving DecidableEq

structure Item (kind : ItemKind) where
  /-- Place in the listing of its kind, from 0. -/
  index : Nat
  submitter : Identity
  mode : SubmissionMode
  status : ItemStatus
  review : Option Review
  /-- Whether it ever went back to review after a rejection. -/
  redraftedAfterRejection : Bool
  preConfirmedBy : Option Identity
  /-- When the ledger confirmed it. -/
  addedOn : Option Timestamp
  acknowledgedOn : Option Timestamp
  fees : Option Fees
  payload : kind.Payload
deriving DecidableEq

namespace Item

variable {kind : ItemKind}

def new (index : Nat) (submitter : Identity) (mode : SubmissionMode) (payload : kind.Payload) :
    Item kind where
  index
  submitter
  mode
  status := .draft
  review := none
  redraftedAfterRejection := false
  preConfirmedBy := none
  addedOn := none
  acknowledgedOn := none
  fees := none
  payload

def key (item : Item kind) : kind.Key := kind.keyOf item.payload

def ref (item : Item kind) : ItemRef := kind.ref item.key

/-- Until the ledger confirms it. -/
def IsDraft (item : Item kind) : Prop := item.addedOn = none

instance (item : Item kind) : Decidable item.IsDraft := inferInstanceAs (Decidable (_ = _))

/-- Whether an item shows to a viewer: a confirmed item to everybody, a draft to the owner and to
its submitter, and the owner's drafts to the requester. -/
def IsVisibleTo (item : Item kind) (viewer : Identity) (ctx : CaseContext) : Prop :=
  ¬item.IsDraft ∨ viewer = ctx.owner ∨ viewer = item.submitter
    ∨ (ctx.requester = some viewer ∧ item.submitter = ctx.owner)

instance (item : Item kind) (viewer : Identity) (ctx : CaseContext) :
    Decidable (item.IsVisibleTo viewer ctx) :=
  inferInstanceAs (Decidable (_ ∨ _ ∨ _ ∨ _))

/-- Only what the owner submitted may be confirmed without a review. -/
def RequiresReview (item : Item kind) (ctx : CaseContext) : Prop := item.submitter ≠ ctx.owner

instance (item : Item kind) (ctx : CaseContext) : Decidable (item.RequiresReview ctx) :=
  inferInstanceAs (Decidable (_ ≠ _))

/-- The owner of the case and the submitter of the item handle it. -/
def IsHandledBy (item : Item kind) (actor : Identity) (ctx : CaseContext) : Prop :=
  actor = ctx.owner ∨ actor = item.submitter

instance (item : Item kind) (actor : Identity) (ctx : CaseContext) :
    Decidable (item.IsHandledBy actor ctx) :=
  inferInstanceAs (Decidable (_ ∨ _))

def stateError (item : Item kind) (action : ItemAction) (obstacle : ItemObstacle) : Error :=
  .invalidItemState action item.ref obstacle

def forbidden (item : Item kind) (actor : Identity) (action : ItemAction) : Error :=
  .forbidden actor (.onItem action item.ref)

def ensureUnconfirmed (item : Item kind) (action : ItemAction) : Except Error Unit :=
  ensure item.IsDraft (item.stateError action .confirmed)

/-- The item together with the note that it was updated. -/
def noted (item : Item kind) : Item kind × ChangeSet := (item, .update item.ref)

/-! ### Review -/

/-- Sends a draft, or an item rejected before, to review. -/
def requestReview (actor : Identity) (ctx : CaseContext) (item : Item kind) :
    Except Error (Item kind × ChangeSet) := do
  ensure (ctx.status = .opened) (.invalidStatus (.onItem .requestReview) ctx.status)
  ensure (item.IsHandledBy actor ctx) (item.forbidden actor .requestReview)
  item.ensureUnconfirmed .requestReview
  ensure (item.status = .draft ∨ item.status = .reviewRejected)
    (item.stateError .requestReview (.status item.status))
  return noted { item with
    status := .reviewPending
    review := none
    redraftedAfterRejection := item.redraftedAfterRejection || item.status = .reviewRejected }

/-- Decides a pending review. -/
def decideReview (action : ItemAction) (review : Review) (next : ItemStatus) (actor : Identity)
    (ctx : CaseContext) (item : Item kind) : Except Error (Item kind × ChangeSet) := do
  ensure (actor = ctx.owner) (item.forbidden actor action)
  ensure (item.status = .reviewPending) (item.stateError action (.status item.status))
  return noted { item with status := next, review := some review }

def accept (actor : Identity) (ctx : CaseContext) (item : Item kind) :
    Except Error (Item kind × ChangeSet) :=
  decideReview .accept ⟨.accepted, none⟩ .reviewAccepted actor ctx item

def reject (reason : String) (actor : Identity) (ctx : CaseContext) (item : Item kind) :
    Except Error (Item kind × ChangeSet) :=
  decideReview .reject ⟨.rejected, some reason⟩ .reviewRejected actor ctx item

/-! ### Confirmation -/

/-- An item may be confirmed in an open case, once, after an accepted review or as a draft that
needs none. -/
def checkConfirmable (action : ItemAction) (ctx : CaseContext) (item : Item kind) :
    Except Error Unit := do
  ensure (ctx.status = .opened) (.invalidStatus (.onItem action) ctx.status)
  item.ensureUnconfirmed action
  match item.status with
  | .reviewAccepted => return ()
  | .draft => ensure (¬item.RequiresReview ctx) (item.stateError action .reviewRequired)
  | now => .error (item.stateError action (.status now))

def checkPrePublishOrAcknowledge (actor : Identity) (ctx : CaseContext) (item : Item kind) :
    Except Error Unit := do
  ensure (item.mode = .direct) (item.stateError .prePublishOrAcknowledge .submittedByDelegate)
  ensure (item.IsHandledBy actor ctx) (item.forbidden actor .prePublishOrAcknowledge)
  item.checkConfirmable .prePublishOrAcknowledge ctx

def checkPreAcknowledge (actor : Identity) (ctx : CaseContext) (item : Item kind) :
    Except Error Unit := do
  ensure (item.mode = .delegated) (item.stateError .preAcknowledge .notSubmittedByDelegate)
  ensure (item.IsHandledBy actor ctx) (item.forbidden actor .preAcknowledge)
  item.checkConfirmable .preAcknowledge ctx

def canPrePublishOrAcknowledge (actor : Identity) (ctx : CaseContext) (item : Item kind) : Bool :=
  (item.checkPrePublishOrAcknowledge actor ctx).isOk

def canPreAcknowledge (actor : Identity) (ctx : CaseContext) (item : Item kind) : Bool :=
  (item.checkPreAcknowledge actor ctx).isOk

/-- Confirms what the owner or the requester submitted: the owner acknowledges it, its submitter
publishes it. -/
def prePublishOrAcknowledge (actor : Identity) (ctx : CaseContext) (item : Item kind) :
    Except Error (Item kind × ChangeSet) := do
  item.checkPrePublishOrAcknowledge actor ctx
  return noted { item with
    status := if actor = ctx.owner then .acknowledged else .published
    preConfirmedBy := some actor }

/-- Confirms what a delegate submitted. -/
def preAcknowledge (actor : Identity) (ctx : CaseContext) (item : Item kind) :
    Except Error (Item kind × ChangeSet) := do
  item.checkPreAcknowledge actor ctx
  return noted { item with status := .acknowledged, preConfirmedBy := some actor }

/-- Where an item stands when its confirmation is taken back. -/
def statusBeforeConfirmation (item : Item kind) : ItemStatus :=
  if item.review.any (·.decision = .accepted) then .reviewAccepted else .draft

/-- Takes a confirmation under one of the two protocols back. -/
def cancelConfirmation (action : ItemAction) (mode : SubmissionMode) (actor : Identity)
    (ctx : CaseContext) (item : Item kind) : Except Error (Item kind × ChangeSet) := do
  ensure (item.mode = mode) (item.stateError action .otherProtocol)
  ensure (item.IsHandledBy actor ctx) (item.forbidden actor action)
  item.ensureUnconfirmed action
  ensure (item.status = .published ∨ item.status = .acknowledged)
    (item.stateError action (.status item.status))
  return noted { item with status := item.statusBeforeConfirmation, preConfirmedBy := none }

def cancelPrePublishOrAcknowledge (actor : Identity) (ctx : CaseContext) (item : Item kind) :
    Except Error (Item kind × ChangeSet) :=
  cancelConfirmation .cancelPrePublishOrAcknowledge .direct actor ctx item

def cancelPreAcknowledge (actor : Identity) (ctx : CaseContext) (item : Item kind) :
    Except Error (Item kind × ChangeSet) :=
  cancelConfirmation .cancelPreAcknowledge .delegated actor ctx item

/-! ### Stamps of the ledger -/

/-- The ledger took the item in. An item that was not confirmed here counts as published. -/
def setAddedOn (on : Timestamp) (item : Item kind) : Item kind × ChangeSet :=
  if item.addedOn.isSome then (item, ∅)
  else noted { item with
    addedOn := some on
    status :=
      if item.status = .published ∨ item.status = .acknowledged then item.status else .published }

def setFees (fees : Fees) (item : Item kind) : Item kind × ChangeSet :=
  if item.fees.isSome then (item, ∅) else noted { item with fees := some fees }

def setAcknowledgedOn (on : Timestamp) (item : Item kind) : Item kind × ChangeSet :=
  if item.acknowledgedOn.isSome then (item, ∅)
  else noted { item with acknowledgedOn := some on, status := .acknowledged }

end Item

/-! ### Operations as values -/

/-- What somebody does to an item. -/
inductive ItemStep where
  | requestReview
  | accept
  | reject (reason : String)
  | prePublishOrAcknowledge
  | preAcknowledge
  | cancelPrePublishOrAcknowledge
  | cancelPreAcknowledge
deriving DecidableEq

/-- What the ledger says of an item. -/
inductive ItemStamp where
  | added (on : Timestamp)
  | fees (fees : Fees)
  | acknowledged (on : Timestamp)
deriving DecidableEq

namespace Item

variable {kind : ItemKind}

def perform : ItemStep → Identity → CaseContext → Item kind → Except Error (Item kind × ChangeSet)
  | .requestReview => requestReview
  | .accept => accept
  | .reject reason => reject reason
  | .prePublishOrAcknowledge => prePublishOrAcknowledge
  | .preAcknowledge => preAcknowledge
  | .cancelPrePublishOrAcknowledge => cancelPrePublishOrAcknowledge
  | .cancelPreAcknowledge => cancelPreAcknowledge

def stamp : ItemStamp → Item kind → Item kind × ChangeSet
  | .added on => setAddedOn on
  | .fees fees => setFees fees
  | .acknowledged on => setAcknowledgedOn on

end Item
end CaseRegistry
