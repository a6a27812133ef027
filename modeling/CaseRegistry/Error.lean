import CaseRegistry.Item.Status

/-!
Why an operation fails. Each cause keeps what is needed to say it; `Error.message` says it, and
`Error.category` tells how a caller should take it.
-/
namespace CaseRegistry

/-- What is done to a case as a whole. -/
inductive CaseAction where
  | submit
  | accept
  | reject
  | rework
  | preClose
  | close
  | void
  | startVerification
  | edit
  /-- An action on an item for which the case must be open. -/
  | onItem (action : ItemAction)
deriving DecidableEq

def CaseAction.label : CaseAction → String
  | submit => "submit"
  | accept => "accept"
  | reject => "reject"
  | rework => "rework"
  | preClose => "pre-close"
  | close => "close"
  | void => "void"
  | startVerification => "start identity verification"
  | edit => "edit"
  | onItem .requestReview => "request item review"
  | onItem action => action.label

/-- Something that only some may do. -/
inductive Undertaking where
  | onItem (action : ItemAction) (item : ItemRef)
  | addItem (kind : ItemKind) (id : CaseId)
  | addDelegate (id : CaseId)
  | removeDelegate (id : CaseId)
  | changeDelivery (id : CaseId)
deriving DecidableEq

def Undertaking.describe : Undertaking → String
  | onItem action item => s!"{action.verb} {item.kind} {item.key}"
  | addItem kind id => s!"add {kind} to case {id}"
  | addDelegate id => s!"add delegate on case {id}"
  | removeDelegate id => s!"remove delegate on case {id}"
  | changeDelivery id => s!"change file delivery on case {id}"

/-- What is wrong with a case, or with a request for one. -/
inductive CaseFault where
  | identityForIdentity
  | sealWithoutIdentity
  | noVerification (id : CaseId)
  | alreadyParty (who : Identity) (id : CaseId)
  | notCollection (id : CaseId)
  | taken (id : CaseId)
deriving DecidableEq

def CaseFault.describe : CaseFault → String
  | identityForIdentity => "identity case cannot be requested by another identity case"
  | sealWithoutIdentity => "only identity cases carry a seal"
  | noVerification id => s!"case {id} has no identity verification in progress"
  | alreadyParty who id => s!"{who} is already a party of case {id}"
  | notCollection id => s!"case {id} is not a collection"
  | taken id => s!"case {id} already exists"

inductive FeeName where
  | partialFee
  | storageFee
deriving DecidableEq

def FeeName.label : FeeName → String
  | partialFee => "partial_fee"
  | storageFee => "storage_fee"

/-- What is wrong with an argument of a ledger operation. -/
inductive ArgumentFault where
  | missing (name : String)
  | invalid (name : String)
deriving DecidableEq

def ArgumentFault.describe : ArgumentFault → String
  | missing name => "missing " ++ name
  | invalid name => "invalid " ++ name

inductive Error where
  | invalidStatus (action : CaseAction) (status : CaseStatus)
  | caseVoid (id : CaseId)
  | alreadyVoid (id : CaseId)
  | invalidCase (fault : CaseFault)
  | missingRequester (id : CaseId)
  | verificationPending (id : CaseId)
  | caseNotFound (id : CaseId)
  | duplicateItem (item : ItemRef)
  | itemNotFound (item : ItemRef)
  | invalidItemState (action : ItemAction) (item : ItemRef) (obstacle : ItemObstacle)
  | forbidden (actor : Identity) (undertaking : Undertaking)
  | unexpectedOperation (kind : String)
  | missingTarget (kind : String) (id : CaseId)
  | missingFee (kind : String) (fee : FeeName)
  | malformedOperation (kind : String) (fault : ArgumentFault)
  | repository (message : String)
  | ledger (message : String)
  | configuration (message : String)
  | internal (message : String)
deriving DecidableEq

namespace Error

def message : Error → String
  | invalidStatus action status => s!"cannot {action.label} case in status {status}"
  | caseVoid id => s!"case {id} is void"
  | alreadyVoid id => s!"case {id} already has void information"
  | invalidCase fault => "invalid case: " ++ fault.describe
  | missingRequester id => s!"case {id} has no requester"
  | verificationPending id => s!"identity verification of case {id} is still pending"
  | caseNotFound id => s!"case not found: {id}"
  | duplicateItem item => s!"duplicate {item.kind}: {item.key}"
  | itemNotFound item => s!"{item.kind} not found: {item.key}"
  | invalidItemState action item obstacle =>
    s!"cannot {action.label} {item.kind} {item.key}: {obstacle.describe}"
  | forbidden actor undertaking => s!"{actor} is not allowed to {undertaking.describe}"
  | unexpectedOperation kind => "unexpected ledger operation kind: " ++ kind
  | missingTarget kind id => s!"ledger operation {kind} targets unknown case {id}"
  | missingFee kind fee => s!"ledger operation {kind} is missing required fee {fee.label}"
  | malformedOperation kind fault => s!"malformed ledger operation {kind}: {fault.describe}"
  | repository message => "repository error: " ++ message
  | ledger message => "ledger error: " ++ message
  | configuration message => "configuration error: " ++ message
  | internal message => "internal error: " ++ message

/-- How an error is to be taken. -/
inductive Category where
  /-- The request does not fit the present state. -/
  | precondition
  | forbidden
  /-- The ledger says what this registry cannot follow. -/
  | syncFatal
  /-- Something this registry relies on has failed. -/
  | collaborator
deriving DecidableEq

def category : Error → Category
  | forbidden _ _ => .forbidden
  | unexpectedOperation _ | missingTarget _ _ | missingFee _ _ | malformedOperation _ _ => .syncFatal
  | repository _ | ledger _ | configuration _ | internal _ => .collaborator
  | _ => .precondition

def IsForbidden (e : Error) : Prop := e.category = .forbidden

instance (e : Error) : Decidable e.IsForbidden := inferInstanceAs (Decidable (_ = _))

end Error

section
variable {ε α β : Type}

@[simp] theorem bind_eq_ok {x : Except ε α} {f : α → Except ε β} {b : β} :
    (x >>= f) = .ok b ↔ ∃ a, x = .ok a ∧ f a = .ok b := by
  cases x with
  | error e => exact ⟨nofun, nofun⟩
  | ok a => exact ⟨fun h => ⟨a, rfl, h⟩, fun ⟨_, h, hf⟩ => Except.ok.inj h ▸ hf⟩

@[simp] theorem map_eq_ok {x : Except ε α} {f : α → β} {b : β} :
    x.map f = .ok b ↔ ∃ a, x = .ok a ∧ f a = b := by
  cases x with
  | error e => exact ⟨nofun, nofun⟩
  | ok a => exact ⟨fun h => ⟨a, rfl, Except.ok.inj h⟩, fun ⟨_, h, hf⟩ => Except.ok.inj h ▸ hf ▸ rfl⟩

@[simp] theorem mapError_eq_ok {δ : Type} {x : Except ε α} {f : ε → δ} {a : α} :
    x.mapError f = .ok a ↔ x = .ok a := by
  cases x with
  | error e => exact ⟨nofun, nofun⟩
  | ok _ => exact ⟨fun h => Except.ok.inj h ▸ rfl, fun h => Except.ok.inj h ▸ rfl⟩

@[simp] theorem pure_eq_ok {a b : α} : (pure a : Except ε α) = .ok b ↔ a = b :=
  ⟨Except.ok.inj, congrArg Except.ok⟩

end

/-- Demands that a rule holds. -/
def ensure (rule : Prop) [Decidable rule] (e : Error) : Except Error Unit :=
  if rule then .ok () else .error e

section
variable {α : Type} {rule : Prop} [Decidable rule] {e : Error} {f : Unit → Except Error α} {a : α}

theorem ensure_bind : (ensure rule e >>= f) = if rule then f () else .error e := by
  unfold ensure
  split <;> rfl

@[simp] theorem ensure_bind_eq_ok : (ensure rule e >>= f) = .ok a ↔ rule ∧ f () = .ok a := by
  rw [ensure_bind]
  split <;> simp_all

@[simp] theorem ensure_eq_ok {u : Unit} : ensure rule e = .ok u ↔ rule := by
  unfold ensure
  split <;> simp_all

end
end CaseRegistry
