import CaseRegistry.Case.Basic

/-!
The items of a case. What somebody does to an item goes through only while the case is editable.
Stamps of the ledger go through whatever the case's status: the ledger has the last word.
-/
namespace CaseRegistry.Case

def collection (c : Case) (kind : ItemKind) : Collection kind := c.items.get kind

/-- The case after something done to one of its collections. -/
def onCollection (c : Case) (kind : ItemKind)
    (f : Collection kind → Except Error (Collection kind × ChangeSet)) :
    Except Error (Case × ChangeSet) := do
  let (new, changes) ← f (c.collection kind)
  return ({ c with items := c.items.set kind new }, changes)

def itemsVisibleTo (c : Case) (kind : ItemKind) (viewer : Identity) : List (Item kind) :=
  (c.collection kind).visibleTo viewer c.context

def addItem (kind : ItemKind) (submitter : Identity) (payload : kind.Payload) (c : Case) :
    Except Error (Case × ChangeSet) := do
  c.ensureEditable
  ensure (c.IsContributor submitter) (.forbidden submitter (.addItem kind c.id))
  c.onCollection kind (·.add submitter (c.submissionModeOf submitter) payload)

def removeItem (kind : ItemKind) (actor : Identity) (key : kind.Key) (c : Case) :
    Except Error (Case × ChangeSet) := do
  c.ensureEditable
  c.onCollection kind (·.remove key actor c.context)

def performOnItem (kind : ItemKind) (step : ItemStep) (actor : Identity) (key : kind.Key)
    (c : Case) : Except Error (Case × ChangeSet) := do
  c.ensureEditable
  c.onCollection kind (·.modify key (Item.perform step actor c.context))

def stampItem (kind : ItemKind) (stamp : ItemStamp) (key : kind.Key) (c : Case) :
    Except Error (Case × ChangeSet) :=
  c.onCollection kind (·.modify key fun item => .ok (item.stamp stamp))

/-- Whether an item is there, and passes a check, while the case is editable. -/
def allows (c : Case) (kind : ItemKind) (key : kind.Key) (check : Item kind → Bool) : Bool :=
  c.ensureEditable.isOk && ((c.collection kind).get? key).any check

def canPrePublishOrAcknowledge (c : Case) (kind : ItemKind) (actor : Identity) (key : kind.Key) :
    Bool :=
  c.allows kind key (·.canPrePublishOrAcknowledge actor c.context)

def canPreAcknowledge (c : Case) (kind : ItemKind) (actor : Identity) (key : kind.Key) : Bool :=
  c.allows kind key (·.canPreAcknowledge actor c.context)

/-- The owner sets whether copies of a file go to named recipients only. -/
def setRestrictedDelivery (actor : Identity) (hash : ContentHash) (restricted : Bool) (c : Case) :
    Except Error (Case × ChangeSet) := do
  c.ensureOwner actor .changeDelivery
  ensure (¬c.IsVoid) (.caseVoid c.id)
  c.onCollection .file (·.setRestrictedDelivery hash restricted)

def addDeliveredCopy (hash : ContentHash) (copy : DeliveredCopy) (c : Case) :
    Except Error (Case × ChangeSet) := do
  ensure (¬c.IsVoid) (.caseVoid c.id)
  c.onCollection .file (·.addDeliveredCopy hash copy)

end CaseRegistry.Case
