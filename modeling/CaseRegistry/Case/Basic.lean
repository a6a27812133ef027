import CaseRegistry.Item.Collection

/-!
Cases: the record of a case, how one is made, and what can be asked of it. A case belongs to its
owner; the requester is whom it is kept for, and delegates may submit items. Items are held in
one collection for each kind.
-/
namespace CaseRegistry

/-- Whom a case is kept for. -/
inductive Requester where
  | address (who : Identity)
  /-- An identity case that stands for somebody without an address. -/
  | identityCase (id : CaseId)
deriving DecidableEq

def Requester.isIdentityCase : Requester → Bool
  | .address _ => false
  | .identityCase _ => true

structure VoidInfo where
  reason : String
  /-- Not set while voiding is only asked for. -/
  voidedOn : Option Timestamp
  replacer : Option CaseId
deriving DecidableEq

/-- A seal over the personal data of an identity case. -/
structure Seal where
  hash : Bytes 32
  salt : String
  version : Nat
deriving DecidableEq

inductive VerificationStatus where
  | pending
  | completed
  | failed
deriving DecidableEq

/-- An entry of a collection case, as the ledger recorded it. -/
structure CollectionEntry where
  itemId : String
  addedOn : Timestamp
  fees : Fees
deriving DecidableEq

/-- Whether an operation that is done once had anything left to do. -/
inductive Outcome where
  | applied
  | alreadyApplied
deriving DecidableEq

/-- What a case is made from. -/
structure CaseDefinition where
  id : CaseId
  owner : Identity
  requester : Option Requester
  description : String
  kind : CaseKind
  sealInfo : Option Seal
deriving DecidableEq

/-- The items of a case, a collection for each kind. -/
structure CaseItems where
  files : Collection .file
  metadata : Collection .metadata
  links : Collection .link
deriving DecidableEq

namespace CaseItems

def empty : CaseItems := ⟨∅, ∅, ∅⟩

instance : EmptyCollection CaseItems := ⟨empty⟩

instance : Inhabited CaseItems := ⟨∅⟩

def get (items : CaseItems) : (kind : ItemKind) → Collection kind
  | .file => items.files
  | .metadata => items.metadata
  | .link => items.links

def set (items : CaseItems) : (kind : ItemKind) → Collection kind → CaseItems
  | .file, new => { items with files := new }
  | .metadata, new => { items with metadata := new }
  | .link, new => { items with links := new }

@[simp] theorem get_set (items : CaseItems) (kind : ItemKind) (new : Collection kind) :
    (items.set kind new).get kind = new := by
  cases kind <;> rfl

theorem get_set_of_ne (items : CaseItems) {kind other : ItemKind} (new : Collection kind)
    (ne : other ≠ kind) : (items.set kind new).get other = items.get other := by
  cases kind <;> cases other <;> first | rfl | exact absurd rfl ne

end CaseItems

structure Case where
  id : CaseId
  status : CaseStatus
  owner : Identity
  requester : Option Requester
  description : String
  kind : CaseKind
  /-- When the ledger recorded the case. -/
  createdOn : Option Timestamp
  decisionOn : Option Timestamp
  rejectionReason : Option String
  closedOn : Option Timestamp
  voidInfo : Option VoidInfo
  sealInfo : Option Seal
  identityVerification : Option VerificationStatus
  creationFees : Option Fees
  delegates : IdentitySet
  items : CaseItems
  collectionItems : List CollectionEntry
deriving DecidableEq

namespace Case

/-! ### Making a case -/

/-- Makes a case in a status. A case about a person is not asked for by an identity case, any
other case has a requester unless it is a draft, and only a case about a person has a seal. -/
def build (status : CaseStatus) (d : CaseDefinition) : Except Error Case := do
  ensure (¬(d.kind = .identity ∧ d.requester.any Requester.isIdentityCase))
    (.invalidCase .identityForIdentity)
  ensure (d.kind = .identity ∨ d.requester.isSome ∨ status = .draft) (.missingRequester d.id)
  ensure (d.sealInfo = none ∨ d.kind = .identity) (.invalidCase .sealWithoutIdentity)
  return {
    id := d.id
    status
    owner := d.owner
    requester := d.requester
    description := d.description
    kind := d.kind
    createdOn := none
    decisionOn := none
    rejectionReason := none
    closedOn := none
    voidInfo := none
    sealInfo := d.sealInfo
    identityVerification := none
    creationFees := none
    delegates := ∅
    items := ∅
    collectionItems := [] }

/-- A case that its requester prepares. -/
def draft (d : CaseDefinition) : Except Error Case := build .draft d

/-- A case that waits for the owner to decide on it. -/
def request (d : CaseDefinition) : Except Error Case := build .requested d

/-- A case that its owner opens right away. -/
def openNew (d : CaseDefinition) (on : Timestamp) : Except Error Case := do
  let c ← build .opened d
  return { c with decisionOn := some on }

/-! ### Asking a case -/

def requesterAddress (c : Case) : Option Identity :=
  match c.requester with
  | some (.address who) => some who
  | _ => none

def context (c : Case) : CaseContext := ⟨c.owner, c.requesterAddress, c.status⟩

def IsVoid (c : Case) : Prop := ∃ info ∈ c.voidInfo, info.voidedOn.isSome

instance (c : Case) : Decidable c.IsVoid := inferInstanceAs (Decidable (∃ _ ∈ c.voidInfo, _))

/-- Voiding is asked for and not yet recorded. -/
def IsPreVoid (c : Case) : Prop := ∃ info ∈ c.voidInfo, info.voidedOn = none

instance (c : Case) : Decidable c.IsPreVoid := inferInstanceAs (Decidable (∃ _ ∈ c.voidInfo, _))

/-- The owner and the requester are the parties of a case. -/
def IsParty (c : Case) (who : Identity) : Prop := who = c.owner ∨ c.requesterAddress = some who

instance (c : Case) (who : Identity) : Decidable (c.IsParty who) :=
  inferInstanceAs (Decidable (_ ∨ _))

/-- Parties and delegates may submit items. -/
def IsContributor (c : Case) (who : Identity) : Prop := c.IsParty who ∨ who ∈ c.delegates

instance (c : Case) (who : Identity) : Decidable (c.IsContributor who) :=
  inferInstanceAs (Decidable (_ ∨ _))

def submissionModeOf (c : Case) (submitter : Identity) : SubmissionMode :=
  if c.IsParty submitter then .direct else .delegated

def ensureStatus (c : Case) (action : CaseAction) (allowed : List CaseStatus) :
    Except Error Unit :=
  ensure (c.status ∈ allowed) (.invalidStatus action c.status)

def ensureOwner (c : Case) (actor : Identity) (undertaking : CaseId → Undertaking) :
    Except Error Unit :=
  ensure (actor = c.owner) (.forbidden actor (undertaking c.id))

/-- Items and delegates change only in a draft or open case that is not void. -/
def ensureEditable (c : Case) : Except Error Unit := do
  c.ensureStatus .edit [.draft, .opened]
  ensure (¬c.IsVoid) (.caseVoid c.id)

end Case
end CaseRegistry
