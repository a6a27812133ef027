import CaseRegistry.Case.Operation
import CaseRegistry.Proofs.Atomic.Items

/-! Cases written piecemeal.

Every operation on a case as it is carried out in place, field by field and in the order in
which the fields are written. The creation stamp writes its time and then accepts a request,
which could fail; the void stamp makes the record of the voiding first and fills it in later.
`Case.Piecemeal.apply_eq` says that each comes to the same as the operation that gives the new
case at once, failures included, for every case. -/
open CaseRegistry.Action (check get modify step check_step get_step ite_step modify_eq_step pure_eq_step
  step_pure step_step)

namespace CaseRegistry.Case.Piecemeal

/-! ### The life of a case -/

def submit : Action Case Unit := do
  check fun c => c.ensureStatus .submit [.draft]
  check fun c => ensure (c.identityVerification ≠ some .pending) (.verificationPending c.id)
  check fun c => ensure (c.requester.isSome ∨ c.kind = .identity) (.missingRequester c.id)
  modify fun c => { c with status := .requested }

def accept (on : Timestamp) : Action Case Unit := do
  check fun c => c.ensureStatus .accept [.requested]
  modify fun c => { c with status := .opened }
  modify fun c => { c with decisionOn := some on }

def reject (reason : String) (on : Timestamp) : Action Case Unit := do
  check fun c => c.ensureStatus .reject [.requested]
  modify fun c => { c with status := .rejected }
  modify fun c => { c with rejectionReason := some reason }
  modify fun c => { c with decisionOn := some on }

def rework : Action Case Unit := do
  check fun c => c.ensureStatus .rework [.rejected]
  modify fun c => { c with status := .draft }
  modify fun c => { c with rejectionReason := none }
  modify fun c => { c with decisionOn := none }

/-- Writes what is not written yet. -/
def once (written : Case → Bool) (write : Action Case Unit) : Action Case Outcome := do
  let c ← get
  if written c then return .alreadyApplied
  else
    write
    return .applied

/-- Accepts a case that still waits for it. -/
def acceptRequest (on : Timestamp) : Action Case Unit := do
  let c ← get
  if c.status = .requested then accept on else return ()

def setCreatedDate (on : Timestamp) : Action Case Outcome :=
  once (·.createdOn.isSome) do
    modify fun c => { c with createdOn := some on }
    acceptRequest on

def setCreationFees (fees : Fees) : Action Case Outcome :=
  once (·.creationFees.isSome) do
    modify fun c => { c with creationFees := some fees }

def preClose : Action Case Unit := do
  check fun c => c.ensureStatus .preClose [.opened]
  modify fun c => { c with status := .closed }

def close (on : Timestamp) : Action Case Outcome := do
  check fun c => c.ensureStatus .close [.opened, .closed]
  once (·.closedOn.isSome) do
    modify fun c => { c with status := .closed }
    modify fun c => { c with closedOn := some on }

def preVoid (reason : String) : Action Case Unit := do
  check fun c => c.ensureStatus .void [.opened, .closed]
  check fun c => ensure (c.voidInfo = none) (.alreadyVoid c.id)
  modify fun c => { c with voidInfo := some ⟨reason, none, none⟩ }

/-- Writes to the record of the voiding, if there is one. -/
def onVoidInfo (f : VoidInfo → VoidInfo) : Action Case Unit :=
  modify fun c => { c with voidInfo := c.voidInfo.map f }

def voidWith (replacer : Option CaseId) (on : Timestamp) : Action Case Outcome := do
  check fun c => c.ensureStatus .void [.opened, .closed]
  once (·.IsVoid) do
    modify fun c => { c with voidInfo := some (c.voidInfo.getD ⟨"", none, none⟩) }
    onVoidInfo fun info => { info with voidedOn := some on }
    onVoidInfo fun info => if info.replacer = none then { info with replacer } else info

def startIdentityVerification : Action Case Unit := do
  check fun c => c.ensureStatus .startVerification [.draft]
  modify fun c => { c with identityVerification := some .pending }

def completeIdentityVerification (success : Bool) : Action Case Unit := do
  check fun c => ensure (c.identityVerification = some .pending)
    (.invalidCase (.noVerification c.id))
  modify fun c =>
    { c with identityVerification := some (if success then .completed else .failed) }

def addDelegate (actor delegate : Identity) : Action Case Unit := do
  check fun c => c.ensureOwner actor .addDelegate
  check fun c => c.ensureEditable
  check fun c => ensure (¬c.IsParty delegate) (.invalidCase (.alreadyParty delegate c.id))
  modify fun c => { c with delegates := c.delegates.insert delegate }

def removeDelegate (actor delegate : Identity) : Action Case Unit := do
  check fun c => c.ensureOwner actor .removeDelegate
  check fun c => c.ensureEditable
  modify fun c => { c with delegates := c.delegates.erase delegate }

def addCollectionItem (itemId : String) (on : Timestamp) (fees : Fees) :
    Action Case Outcome := do
  check fun c => ensure (c.kind = .collection) (.invalidCase (.notCollection c.id))
  once (itemId ∈ ·.collectionItems.map CollectionEntry.itemId) do
    modify fun c => { c with collectionItems := c.collectionItems ++ [⟨itemId, on, fees⟩] }

/-! ### Items -/

/-- Works on one of the collections, where it is. -/
def onCollection (kind : ItemKind) (a : Action (Collection kind) ChangeSet) :
    Action Case ChangeSet :=
  Action.on (·.collection kind) (fun new c => { c with items := c.items.set kind new }) a

def addItem (kind : ItemKind) (submitter : Identity) (payload : kind.Payload) :
    Action Case ChangeSet := do
  check fun c => c.ensureEditable
  check fun c => ensure (c.IsContributor submitter) (.forbidden submitter (.addItem kind c.id))
  let c ← get
  onCollection kind (Collection.Piecemeal.add submitter (c.submissionModeOf submitter) payload)

def removeItem (kind : ItemKind) (actor : Identity) (key : kind.Key) :
    Action Case ChangeSet := do
  check fun c => c.ensureEditable
  let c ← get
  onCollection kind (Collection.Piecemeal.remove key actor c.context)

def performOnItem (kind : ItemKind) (s : ItemStep) (actor : Identity) (key : kind.Key) :
    Action Case ChangeSet := do
  check fun c => c.ensureEditable
  let c ← get
  onCollection kind
    (Collection.Piecemeal.onItem key (Item.Piecemeal.perform s actor c.context))

def stampItem (kind : ItemKind) (s : ItemStamp) (key : kind.Key) : Action Case ChangeSet :=
  onCollection kind (Collection.Piecemeal.onItem key (Item.Piecemeal.stamp s))

def setRestrictedDelivery (actor : Identity) (hash : ContentHash) (restricted : Bool) :
    Action Case ChangeSet := do
  check fun c => c.ensureOwner actor .changeDelivery
  check fun c => ensure (¬c.IsVoid) (.caseVoid c.id)
  onCollection .file
    (Collection.Piecemeal.onItem hash (Collection.Piecemeal.restrictDelivery restricted))

def addDeliveredCopy (hash : ContentHash) (copy : DeliveredCopy) : Action Case ChangeSet := do
  check fun c => ensure (¬c.IsVoid) (.caseVoid c.id)
  onCollection .file (Collection.Piecemeal.onItem hash (Collection.Piecemeal.deliverCopy copy))

/-! ### All operations -/

def apply : CaseOperation → Action Case CaseReply
  | .submit => silently submit
  | .accept on => silently (accept on)
  | .reject reason on => silently (reject reason on)
  | .rework => silently rework
  | .setCreatedDate on => withOutcome (setCreatedDate on)
  | .setCreationFees fees => withOutcome (setCreationFees fees)
  | .preClose => silently preClose
  | .close on => withOutcome (close on)
  | .preVoid reason => silently (preVoid reason)
  | .makeVoid on => withOutcome (voidWith none on)
  | .voidAndReplace replacer on => withOutcome (voidWith (some replacer) on)
  | .startIdentityVerification => silently startIdentityVerification
  | .completeIdentityVerification success => silently (completeIdentityVerification success)
  | .addDelegate actor delegate => silently (addDelegate actor delegate)
  | .removeDelegate actor delegate => silently (removeDelegate actor delegate)
  | .addCollectionItem itemId on fees => withOutcome (addCollectionItem itemId on fees)
  | .addItem kind submitter payload => withChanges (addItem kind submitter payload)
  | .removeItem kind actor key => withChanges (removeItem kind actor key)
  | .performOnItem kind s actor key => withChanges (performOnItem kind s actor key)
  | .stampItem kind s key => withChanges (stampItem kind s key)
  | .setRestrictedDelivery actor hash restricted =>
    withChanges (setRestrictedDelivery actor hash restricted)
  | .addDeliveredCopy hash copy => withChanges (addDeliveredCopy hash copy)
where
  silently (a : Action Case Unit) : Action Case CaseReply := do
    a
    return .done
  withOutcome (a : Action Case Outcome) : Action Case CaseReply := do
    let outcome ← a
    return .outcome outcome
  withChanges (a : Action Case ChangeSet) : Action Case CaseReply := do
    let changes ← a
    return .changes changes

/-! ### Comparison with the operations that write at once -/

theorem map_bind {α β γ : Type} (x : Except Error α) (f : α → Except Error β) (g : β → γ) :
    (x >>= f).map g = x >>= fun a => (f a).map g := by
  cases x <;> rfl

theorem silently_step (f : Case → Except Error (Case × Unit)) :
    apply.silently (step f) = step fun c => (f c).map fun (after, _) => (after, .done) :=
  step_pure f _

theorem withOutcome_step (f : Case → Except Error (Case × Outcome)) :
    apply.withOutcome (step f) = Case.apply.withOutcome f :=
  step_pure f _

theorem withChanges_step (f : Case → Except Error (Case × ChangeSet)) :
    apply.withChanges (step f) = Case.apply.withChanges f :=
  step_pure f _

theorem once_step (written : Case → Bool) (f : Case → Case) :
    once written (step fun c => .ok (f c, ())) =
      step fun c => if written c then .ok (c, .alreadyApplied) else .ok (f c, .applied) := by
  simp only [once, pure_eq_step, step_step, ite_step]

/-- A step on a collection puts the collection back as it was if it fails. -/
theorem onCollection_step (kind : ItemKind)
    (f : Collection kind → Except Error (Collection kind × ChangeSet)) :
    onCollection kind (step f) = step (·.onCollection kind f) := by
  funext c
  have back : { c with items := c.items.set kind (c.collection kind) } = c := by
    cases kind <;> rfl
  show (onCollection kind (step f)).run c = (step (·.onCollection kind f)).run c
  unfold onCollection
  rw [Action.run_on_step back, Action.run_step, Action.run_step]
  unfold Case.onCollection
  cases f (c.collection kind) <;> rfl

/-- Accepting a request that is one cannot fail. -/
theorem acceptRequest_eq (on : Timestamp) :
    acceptRequest on = step fun c => .ok
      (if c.status = .requested then { c with status := .opened, decisionOn := some on } else c,
        ()) := by
  simp only [acceptRequest, accept, pure_eq_step, modify_eq_step, step_step, check_step, ite_step]
  refine congrArg step (funext fun c => ?_)
  split
  case isTrue requested =>
    simp [ensureStatus, ensure_bind, requested]
  case isFalse => rfl

theorem setCreatedDate_eq (on : Timestamp) : setCreatedDate on = Case.setCreatedDate on := by
  simp only [setCreatedDate, acceptRequest_eq, modify_eq_step, step_step, once_step]
  funext c
  show (step _).run c = (Case.setCreatedDate on).run c
  rw [Action.run_step, run_setCreatedDate]
  by_cases stamped : c.createdOn.isSome
  · simp [stamped]
  · by_cases requested : c.status = .requested
    · simp [stamped, requested]
    · simp [stamped, requested]

/-- Making the record first and filling it in makes the whole record. -/
theorem fill_record (recorded : Option VoidInfo) (replacer : Option CaseId) (on : Timestamp) :
    ((some (recorded.getD ⟨"", none, none⟩)).map fun info => { info with voidedOn := some on }).map
        (fun info => if info.replacer = none then { info with replacer } else info) =
      some ⟨(recorded.getD ⟨"", none, none⟩).reason, some on,
        (recorded.getD ⟨"", none, none⟩).replacer.or replacer⟩ := by
  obtain _ | ⟨reason, voidedOn, _ | known⟩ := recorded <;> rfl

theorem voidWith_eq (replacer : Option CaseId) (on : Timestamp) :
    voidWith replacer on = step (Case.voidWith replacer on) := by
  simp only [voidWith, onVoidInfo, modify_eq_step, step_step, once_step, check_step, fill_record,
    decide_eq_true_eq]
  rfl

theorem apply_eq (op : CaseOperation) : apply op = Case.apply op := by
  cases op with
  | submit | accept on | reject reason on | rework | preClose | preVoid reason
  | startIdentityVerification | completeIdentityVerification success
  | addDelegate actor delegate | removeDelegate actor delegate =>
    simp only [apply, submit, accept, reject, rework, preClose, preVoid,
      startIdentityVerification, completeIdentityVerification, addDelegate, removeDelegate,
      modify_eq_step, step_step, check_step, silently_step, map_bind, Case.apply,
      Case.apply.silently, Case.submit, Case.accept, Case.reject, Case.rework, Case.preClose,
      Case.preVoid, Case.startIdentityVerification, Case.completeIdentityVerification,
      Case.addDelegate, Case.removeDelegate]
    rfl
  | setCreatedDate on =>
    exact congrArg apply.withOutcome (setCreatedDate_eq on)
  | setCreationFees fees =>
    simp only [apply, setCreationFees, modify_eq_step, once_step, withOutcome_step]
    refine congrArg Case.apply.withOutcome (funext fun c => ?_)
    unfold Case.setCreationFees
    split <;> rfl
  | close on | addCollectionItem itemId on fees =>
    simp only [apply, close, addCollectionItem, modify_eq_step, step_step, check_step, once_step,
      withOutcome_step, decide_eq_true_eq]
    rfl
  | makeVoid on | voidAndReplace replacer on =>
    simp only [apply, voidWith_eq, withOutcome_step]
    rfl
  | addItem kind submitter payload | removeItem kind actor key | performOnItem kind s actor key
  | stampItem kind s key | setRestrictedDelivery actor hash restricted
  | addDeliveredCopy hash copy =>
    simp only [apply, addItem, removeItem, performOnItem, stampItem, setRestrictedDelivery,
      addDeliveredCopy, Item.Piecemeal.perform_eq, Item.Piecemeal.stamp_eq,
      Collection.Piecemeal.onItem_step, Collection.Piecemeal.add_eq,
      Collection.Piecemeal.remove_eq, Collection.Piecemeal.restrictDelivery_eq,
      Collection.Piecemeal.deliverCopy_eq, onCollection_step, get_step, check_step,
      withChanges_step]
    rfl

end CaseRegistry.Case.Piecemeal
