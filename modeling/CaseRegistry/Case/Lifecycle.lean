import CaseRegistry.Action
import CaseRegistry.Case.Basic

/-!
The life of a case as a whole: from its draft to its closing, voiding, which lies over the rest,
verification of the person it is about, and the delegates. What the ledger records is set once
and stays; saying it again changes nothing and is no error.
-/
namespace CaseRegistry.Case

/-! ### Decision -/

def submit (c : Case) : Except Error Case := do
  c.ensureStatus .submit [.draft]
  ensure (c.identityVerification ≠ some .pending) (.verificationPending c.id)
  ensure (c.requester.isSome ∨ c.kind = .identity) (.missingRequester c.id)
  return { c with status := .requested }

def accept (on : Timestamp) (c : Case) : Except Error Case := do
  c.ensureStatus .accept [.requested]
  return { c with status := .opened, decisionOn := some on }

def reject (reason : String) (on : Timestamp) (c : Case) : Except Error Case := do
  c.ensureStatus .reject [.requested]
  return { c with status := .rejected, rejectionReason := some reason, decisionOn := some on }

/-- Takes a rejected case back to its draft. -/
def rework (c : Case) : Except Error Case := do
  c.ensureStatus .rework [.rejected]
  return { c with status := .draft, rejectionReason := none, decisionOn := none }

/-! ### Creation, as the ledger records it -/

/-- The ledger made the case; a request still waiting is accepted thereby. The time is written
first, then the request is accepted, which cannot fail any more: `run_setCreatedDate`. -/
def setCreatedDate (on : Timestamp) : Action Case Outcome := do
  let c ← Action.get
  if c.createdOn.isSome then return .alreadyApplied
  else
    Action.modify fun c => { c with createdOn := some on }
    if c.status = .requested then Action.step fun c => (c.accept on).map fun after => (after, ())
    return .applied

theorem accept_of_requested {c : Case} (requested : c.status = .requested) (on : Timestamp) :
    c.accept on = .ok { c with status := .opened, decisionOn := some on } := by
  unfold accept ensureStatus
  rw [ensure_bind, if_pos (by simp [requested])]
  rfl

/-- The creation stamp never fails. -/
theorem run_setCreatedDate (on : Timestamp) (c : Case) :
    (setCreatedDate on).run c =
      if c.createdOn.isSome then (.ok .alreadyApplied, c)
      else if c.status = .requested then
        (.ok .applied, { c with createdOn := some on, status := .opened, decisionOn := some on })
      else (.ok .applied, { c with createdOn := some on }) := by
  unfold setCreatedDate
  rw [Action.run_bind_of_ok (Action.run_get c)]
  split
  · rfl
  · rw [Action.run_bind_of_ok (Action.run_modify _ c)]
    by_cases requested : c.status = .requested
    · have accepted := accept_of_requested (c := { c with createdOn := some on }) requested on
      rw [if_pos requested, if_pos requested, Action.run_bind, Action.run_step, accepted]
      rfl
    · rw [if_neg requested, if_neg requested]
      rfl

def setCreationFees (fees : Fees) (c : Case) : Case × Outcome :=
  if c.creationFees.isSome then (c, .alreadyApplied)
  else ({ c with creationFees := some fees }, .applied)

/-! ### Closing -/

/-- The owner closes the case. -/
def preClose (c : Case) : Except Error Case := do
  c.ensureStatus .preClose [.opened]
  return { c with status := .closed }

/-- The ledger closes the case, whether or not the owner has done so. -/
def close (on : Timestamp) (c : Case) : Except Error (Case × Outcome) := do
  c.ensureStatus .close [.opened, .closed]
  if c.closedOn.isSome then return (c, .alreadyApplied)
  else return ({ c with status := .closed, closedOn := some on }, .applied)

/-! ### Voiding -/

/-- The owner asks for the case to be void. -/
def preVoid (reason : String) (c : Case) : Except Error Case := do
  c.ensureStatus .void [.opened, .closed]
  ensure (c.voidInfo = none) (.alreadyVoid c.id)
  return { c with voidInfo := some ⟨reason, none, none⟩ }

/-- The ledger voids the case, for another case if there is a replacer. What the owner gave as
reason stays, and so does a replacer that is known already. -/
def voidWith (replacer : Option CaseId) (on : Timestamp) (c : Case) :
    Except Error (Case × Outcome) := do
  c.ensureStatus .void [.opened, .closed]
  if c.IsVoid then return (c, .alreadyApplied)
  else
    let info := c.voidInfo.getD ⟨"", none, none⟩
    return ({ c with voidInfo := some ⟨info.reason, some on, info.replacer.or replacer⟩ }, .applied)

def makeVoid (on : Timestamp) (c : Case) : Except Error (Case × Outcome) := voidWith none on c

def voidAndReplace (replacer : CaseId) (on : Timestamp) (c : Case) :
    Except Error (Case × Outcome) :=
  voidWith (some replacer) on c

/-! ### Verification of the person -/

def startIdentityVerification (c : Case) : Except Error Case := do
  c.ensureStatus .startVerification [.draft]
  return { c with identityVerification := some .pending }

def completeIdentityVerification (success : Bool) (c : Case) : Except Error Case := do
  ensure (c.identityVerification = some .pending) (.invalidCase (.noVerification c.id))
  return { c with identityVerification := some (if success then .completed else .failed) }

/-! ### Delegates -/

def addDelegate (actor delegate : Identity) (c : Case) : Except Error Case := do
  c.ensureOwner actor .addDelegate
  c.ensureEditable
  ensure (¬c.IsParty delegate) (.invalidCase (.alreadyParty delegate c.id))
  return { c with delegates := c.delegates.insert delegate }

def removeDelegate (actor delegate : Identity) (c : Case) : Except Error Case := do
  c.ensureOwner actor .removeDelegate
  c.ensureEditable
  return { c with delegates := c.delegates.erase delegate }

/-! ### Entries of a collection case -/

/-- Records an entry, each item once. -/
def addCollectionItem (itemId : String) (on : Timestamp) (fees : Fees) (c : Case) :
    Except Error (Case × Outcome) := do
  ensure (c.kind = .collection) (.invalidCase (.notCollection c.id))
  if itemId ∈ c.collectionItems.map CollectionEntry.itemId then return (c, .alreadyApplied)
  else
    return ({ c with collectionItems := c.collectionItems ++ [⟨itemId, on, fees⟩] }, .applied)

end CaseRegistry.Case
