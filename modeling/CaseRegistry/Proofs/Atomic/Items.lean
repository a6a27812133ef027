import CaseRegistry.Item.Collection
import CaseRegistry.Proofs.Atomic.Action
import CaseRegistry.Proofs.Item.Lookup

/-! Items and collections written piecemeal.

What is done to an item or to a collection is given here as it is carried out in place: each
field is a write of its own, checks stand between the writes where they are made, and what was
written before a failure stays written. The operations on items give the new item at once;
`Item.Piecemeal.perform_eq` and `stamp_eq` say that writing it field by field comes to the same,
failures included. For collections `onItem_step` puts what is done to an item in its place, and
`add_eq` and `remove_eq` say the same of adding and of removing, where the loop that numbers the
items behind is compared by an induction on them (`run_settleFrom`). -/
open CaseRegistry.Action (check get modify step check_step modify_eq_step step_step)

namespace CaseRegistry

namespace Item.Piecemeal

variable {kind : ItemKind}

/-! ### Steps and stamps -/

/-- Tells that the item was updated. -/
def note : Action (Item kind) ChangeSet := do
  let item ← get
  return .update item.ref

/-- Whether a request for review would be a new one after a rejection. -/
def redrafts (item : Item kind) : Except Error Bool :=
  match item.status with
  | .draft => .ok false
  | .reviewRejected => .ok true
  | now => .error (item.stateError .requestReview (.status now))

def requestReview (actor : Identity) (ctx : CaseContext) : Action (Item kind) ChangeSet := do
  check fun _ => ensure (ctx.status = .opened) (.invalidStatus (.onItem .requestReview) ctx.status)
  check fun item => ensure (item.IsHandledBy actor ctx) (item.forbidden actor .requestReview)
  check fun item => item.ensureUnconfirmed .requestReview
  let redrafted ← check redrafts
  modify fun item => { item with status := .reviewPending }
  modify fun item => { item with review := none }
  modify fun item =>
    { item with redraftedAfterRejection := item.redraftedAfterRejection || redrafted }
  note

def decideReview (action : ItemAction) (review : Review) (next : ItemStatus) (actor : Identity)
    (ctx : CaseContext) : Action (Item kind) ChangeSet := do
  check fun item => ensure (actor = ctx.owner) (item.forbidden actor action)
  check fun item => ensure (item.status = .reviewPending)
    (item.stateError action (.status item.status))
  modify fun item => { item with status := next }
  modify fun item => { item with review := some review }
  note

def prePublishOrAcknowledge (actor : Identity) (ctx : CaseContext) :
    Action (Item kind) ChangeSet := do
  check fun item => item.checkPrePublishOrAcknowledge actor ctx
  modify fun item =>
    { item with status := if actor = ctx.owner then .acknowledged else .published }
  modify fun item => { item with preConfirmedBy := some actor }
  note

def preAcknowledge (actor : Identity) (ctx : CaseContext) : Action (Item kind) ChangeSet := do
  check fun item => item.checkPreAcknowledge actor ctx
  modify fun item => { item with status := .acknowledged }
  modify fun item => { item with preConfirmedBy := some actor }
  note

def cancelConfirmation (action : ItemAction) (mode : SubmissionMode) (actor : Identity)
    (ctx : CaseContext) : Action (Item kind) ChangeSet := do
  check fun item => ensure (item.mode = mode) (item.stateError action .otherProtocol)
  check fun item => ensure (item.IsHandledBy actor ctx) (item.forbidden actor action)
  check fun item => item.ensureUnconfirmed action
  check fun item => ensure (item.status = .published ∨ item.status = .acknowledged)
    (item.stateError action (.status item.status))
  modify fun item => { item with status := item.statusBeforeConfirmation }
  modify fun item => { item with preConfirmedBy := none }
  note

def perform : ItemStep → Identity → CaseContext → Action (Item kind) ChangeSet
  | .requestReview => requestReview
  | .accept => decideReview .accept ⟨.accepted, none⟩ .reviewAccepted
  | .reject reason => decideReview .reject ⟨.rejected, some reason⟩ .reviewRejected
  | .prePublishOrAcknowledge => prePublishOrAcknowledge
  | .preAcknowledge => preAcknowledge
  | .cancelPrePublishOrAcknowledge => cancelConfirmation .cancelPrePublishOrAcknowledge .direct
  | .cancelPreAcknowledge => cancelConfirmation .cancelPreAcknowledge .delegated

/-- Writes what is not written yet. -/
def once (written : Item kind → Bool) (write : Action (Item kind) ChangeSet) :
    Action (Item kind) ChangeSet := do
  let item ← get
  if written item then return ∅ else write

def stamp : ItemStamp → Action (Item kind) ChangeSet
  | .added on => once (·.addedOn.isSome) do
    modify fun item =>
      { item with status :=
          if item.status = .published ∨ item.status = .acknowledged then item.status
          else .published }
    modify fun item => { item with addedOn := some on }
    note
  | .fees fees => once (·.fees.isSome) do
    modify fun item => { item with fees := some fees }
    note
  | .acknowledged on => once (·.acknowledgedOn.isSome) do
    modify fun item => { item with acknowledgedOn := some on }
    modify fun item => { item with status := .acknowledged }
    note

/-! ### Comparison with the operations that write at once -/

theorem note_step : (note : Action (Item kind) ChangeSet) = step fun item => .ok item.noted := rfl

theorem redrafts_eq (item : Item kind) :
    redrafts item = (do
      ensure (item.status = .draft ∨ item.status = .reviewRejected)
        (item.stateError .requestReview (.status item.status))
      return decide (item.status = .reviewRejected)) := by
  unfold redrafts
  cases item.status <;> rfl

theorem perform_eq (s : ItemStep) (actor : Identity) (ctx : CaseContext) :
    (perform s actor ctx : Action (Item kind) ChangeSet) = step (Item.perform s actor ctx) := by
  cases s with
  | requestReview =>
    simp only [perform, requestReview, note_step, modify_eq_step, step_step, check_step,
      redrafts_eq, bind_assoc, pure_bind]
    rfl
  | accept | reject reason =>
    simp only [perform, decideReview, note_step, modify_eq_step, step_step, check_step]
    rfl
  | prePublishOrAcknowledge =>
    simp only [perform, prePublishOrAcknowledge, note_step, modify_eq_step, step_step, check_step]
    rfl
  | preAcknowledge =>
    simp only [perform, preAcknowledge, note_step, modify_eq_step, step_step, check_step]
    rfl
  | cancelPrePublishOrAcknowledge | cancelPreAcknowledge =>
    simp only [perform, cancelConfirmation, note_step, modify_eq_step, step_step, check_step]
    rfl

theorem once_step (written : Item kind → Bool) (f : Item kind → Item kind) :
    once written (step fun item => .ok (f item).noted) =
      step fun item => .ok (if written item then (item, ∅) else (f item).noted) := by
  unfold once
  simp only [Action.pure_eq_step, Action.ite_step]
  refine congrArg step (funext fun item => ?_)
  split <;> rfl

theorem stamp_eq (s : ItemStamp) :
    stamp s = step fun item : Item kind => .ok (item.stamp s) := by
  cases s with
  | added on | fees fees | acknowledged on =>
    simp only [stamp, note_step, modify_eq_step, step_step, once_step]
    rfl

end Item.Piecemeal

namespace Collection.Piecemeal

variable {kind : ItemKind}

/-! ### One item, and one more item -/

/-- Works on the first item with a key, where it stands. -/
def onItem (key : kind.Key) (a : Action (Item kind) ChangeSet) :
    Action (Collection kind) ChangeSet := do
  let item ← check (·.require key)
  Action.on (fun _ => item) (fun new c => c.put key new) a

def add (submitter : Identity) (mode : SubmissionMode) (payload : kind.Payload) :
    Action (Collection kind) ChangeSet := do
  check fun c => ensure (kind.keyOf payload ∉ c) (.duplicateItem (kind.ref (kind.keyOf payload)))
  let c ← get
  let item := Item.new c.size submitter mode payload
  Action.modify fun c => ⟨c.items ++ [item]⟩
  return .add item.ref

theorem modify_of_require {c : Collection kind} {key : kind.Key} {item : Item kind}
    (found : c.require key = .ok item) (f : Item kind → Except Error (Item kind × ChangeSet)) :
    c.modify key f = (f item).map fun (new, changes) => (c.put key new, changes) := by
  unfold Collection.modify
  rw [found]
  show (f item >>= _) = _
  cases f item <;> rfl

/-- A step on an item that fails puts the item back as it was. -/
theorem onItem_step (key : kind.Key) (f : Item kind → Except Error (Item kind × ChangeSet)) :
    onItem key (step f) = step (·.modify key f) := by
  funext c
  show Action.resume _ (c.require key, c) = (step (·.modify key f)).run c
  rw [Action.run_step]
  cases found : c.require key with
  | error e =>
    unfold Collection.modify
    rw [found]
    rfl
  | ok item =>
    have same : c.put key item = c := put_get? (require_eq_ok.mp found)
    rw [modify_of_require found]
    exact Action.run_on_step same f

theorem add_eq (submitter : Identity) (mode : SubmissionMode) (payload : kind.Payload) :
    add submitter mode payload = step (·.add submitter mode payload) := by
  simp only [add, modify_eq_step, Action.step_pure, Action.get_step, check_step]
  rfl

/-! ### Delivery of files -/

/-- Sets whether copies of a file go to named recipients only. -/
def restrictDelivery (restricted : Bool) : Action (Item .file) ChangeSet :=
  Item.Piecemeal.once (·.payload.restrictedDelivery = restricted) do
    Action.modify fun file =>
      { file with payload := { file.payload with restrictedDelivery := restricted } }
    Item.Piecemeal.note

def deliverCopy (copy : DeliveredCopy) : Action (Item .file) ChangeSet := do
  check fun file => ensure (¬file.IsDraft) (file.stateError .deliver .unconfirmed)
  check fun file => ensure (file.payload.restrictedDelivery = true)
    (file.stateError .deliver .unrestrictedDelivery)
  check fun file => ensure (copy.hash ∉ file.payload.delivered.map DeliveredCopy.hash)
    (.duplicateItem (ItemKind.file.ref copy.hash))
  Action.modify fun file =>
    { file with payload := { file.payload with delivered := file.payload.delivered ++ [copy] } }
  Item.Piecemeal.note

theorem restrictDelivery_eq (restricted : Bool) :
    restrictDelivery restricted =
      step fun file => .ok (Collection.restrictDelivery restricted file) := by
  simp only [restrictDelivery, Item.Piecemeal.note_step, modify_eq_step, step_step,
    Item.Piecemeal.once_step, decide_eq_true_eq]
  rfl

theorem deliverCopy_eq (copy : DeliveredCopy) :
    deliverCopy copy = step (Collection.deliverCopy copy) := by
  simp only [deliverCopy, Item.Piecemeal.note_step, modify_eq_step, step_step, check_step]
  rfl

/-! ### Removal -/

/-- The place of the first item with a key, and the item. -/
def position (key : kind.Key) (c : Collection kind) : Except Error (Nat × Item kind) :=
  match c.items.dropWhile (·.key ≠ key) with
  | [] => .error (.itemNotFound (kind.ref key))
  | item :: _ => .ok ((c.items.takeWhile (·.key ≠ key)).length, item)

/-- Writes the index of the item at a place, unless it is right. -/
def settle (place : Nat) : Action (Collection kind) (List IndexMove) := do
  let c ← get
  match c.items[place]? with
  | none => return []
  | some item =>
    if item.index = place then return []
    else
      Action.modify fun c => ⟨c.items.set place { item with index := place }⟩
      return [⟨item.ref, item.index, place⟩]

/-- Settles as many items as given, from a place on. -/
def settleFrom (place : Nat) : Nat → Action (Collection kind) (List IndexMove)
  | 0 => return []
  | left + 1 => do
    let here ← settle place
    let behind ← settleFrom (place + 1) left
    return here ++ behind

/-- Takes out the item at a place and settles those behind it. -/
def takeOut (place : Nat) : Action (Collection kind) (List IndexMove) := do
  Action.modify fun c => ⟨c.items.eraseIdx place⟩
  let c ← get
  settleFrom place (c.size - place)

def remove (key : kind.Key) (actor : Identity) (ctx : CaseContext) :
    Action (Collection kind) ChangeSet := do
  let (place, item) ← check (position key)
  check fun _ => ensure (item.IsHandledBy actor ctx) (item.forbidden actor .remove)
  check fun _ => item.ensureUnconfirmed .remove
  let moves ← takeOut place
  return { (∅ : ChangeSet) with removed := [item.ref], reindexed := moves }

theorem run_settle (before behind : List (Item kind)) (item : Item kind) :
    (settle before.length).run ⟨before ++ item :: behind⟩ =
      (.ok (movesOf before.length [item]),
        ⟨before ++ { item with index := before.length } :: behind⟩) := by
  have here : (before ++ item :: behind)[before.length]? = some item := by simp
  unfold settle
  rw [Action.run_bind_of_ok (Action.run_get _)]
  simp only [here]
  split
  case isTrue right =>
    have same : { item with index := before.length } = item := by rw [← right]
    simp [movesOf, right, same]
  case isFalse wrong =>
    rw [Action.run_bind_of_ok (Action.run_modify _ _)]
    simp [movesOf, wrong]

theorem movesOf_cons (n : Nat) (item : Item kind) (rest : List (Item kind)) :
    movesOf n (item :: rest) = movesOf n [item] ++ movesOf (n + 1) rest := by
  simp only [movesOf]
  split <;> rfl

/-- Settling what stands behind numbers it in order and tells of each move. -/
theorem run_settleFrom (before behind : List (Item kind)) :
    (settleFrom before.length behind.length).run ⟨before ++ behind⟩ =
      (.ok (movesOf before.length behind), ⟨before ++ renumber before.length behind⟩) := by
  induction behind generalizing before with
  | nil => rfl
  | cons item rest ih =>
    have settled := ih (before ++ [{ item with index := before.length }])
    simp only [List.length_append, List.length_singleton, List.append_assoc,
      List.singleton_append] at settled
    unfold settleFrom
    rw [List.length_cons, movesOf_cons before.length item rest,
      Action.run_bind_of_ok (run_settle before rest item), Action.run_bind_of_ok settled]
    rfl

theorem run_takeOut (before behind : List (Item kind)) (item : Item kind) :
    (takeOut before.length).run ⟨before ++ item :: behind⟩ =
      (.ok (movesOf before.length behind), ⟨before ++ renumber before.length behind⟩) := by
  have rest : (before ++ item :: behind).eraseIdx before.length = before ++ behind := by
    simp [List.eraseIdx_append_of_length_le]
  have left : (⟨before ++ behind⟩ : Collection kind).size - before.length = behind.length := by
    simp [Collection.size]
  unfold takeOut
  rw [Action.run_bind_of_ok (Action.run_modify _ _), Action.run_bind_of_ok (Action.run_get _)]
  simp only [rest, left]
  exact run_settleFrom before behind

theorem remove_eq (key : kind.Key) (actor : Identity) (ctx : CaseContext) :
    remove key actor ctx = step (·.remove key actor ctx) := by
  funext c
  show Action.resume _ (position key c, c) = (step (·.remove key actor ctx)).run c
  have whole := List.takeWhile_append_dropWhile
    (p := (decide <| Item.key · ≠ key)) (l := c.items)
  rw [Action.run_step]
  unfold position Collection.remove
  generalize c.items.takeWhile (·.key ≠ key) = before at whole ⊢
  generalize c.items.dropWhile (·.key ≠ key) = behind at whole ⊢
  cases behind with
  | nil => rfl
  | cons item behind =>
    obtain ⟨items⟩ := c
    subst whole
    simp only [Action.resume, Item.ensureUnconfirmed, Action.check_ensure, ensure_bind]
    split
    case isFalse => rfl
    case isTrue =>
      split
      case isFalse => rfl
      case isTrue =>
        show (takeOut before.length >>= _).run _ = _
        rw [Action.run_bind_of_ok (run_takeOut before behind item)]
        rfl

end Collection.Piecemeal
end CaseRegistry
