import CaseRegistry.Item.Basic

/-!
Collections: the items of one kind in a case, in their order. Items are found by key, added at the
end under the next index, and removed with those behind moving up. All that is done to one item is
done in its place.
-/
namespace CaseRegistry

structure Collection (kind : ItemKind) where
  items : List (Item kind)
deriving DecidableEq

namespace Collection

variable {kind : ItemKind}

def empty : Collection kind := ⟨[]⟩

instance : EmptyCollection (Collection kind) := ⟨empty⟩

instance : Inhabited (Collection kind) := ⟨∅⟩

def size (c : Collection kind) : Nat := c.items.length

def keys (c : Collection kind) : List kind.Key := c.items.map Item.key

/-- The references of all items, in order. -/
def refs (c : Collection kind) : List ItemRef := c.items.map Item.ref

/-- The first item with a key. -/
def get? (c : Collection kind) (key : kind.Key) : Option (Item kind) :=
  c.items.find? (·.key = key)

instance : Membership kind.Key (Collection kind) := ⟨fun c key => (c.get? key).isSome⟩

instance (key : kind.Key) (c : Collection kind) : Decidable (key ∈ c) :=
  inferInstanceAs (Decidable (_ = true))

def require (c : Collection kind) (key : kind.Key) : Except Error (Item kind) :=
  match c.get? key with
  | some item => .ok item
  | none => .error (.itemNotFound (kind.ref key))

/-- Puts an item in the place of the first one with a key. -/
def putFirst (key : kind.Key) (new : Item kind) : List (Item kind) → List (Item kind)
  | [] => []
  | item :: rest => if item.key = key then new :: rest else item :: putFirst key new rest

def put (c : Collection kind) (key : kind.Key) (new : Item kind) : Collection kind :=
  ⟨putFirst key new c.items⟩

/-- Does to the item with a key what may fail. -/
def modify (c : Collection kind) (key : kind.Key)
    (f : Item kind → Except Error (Item kind × ChangeSet)) :
    Except Error (Collection kind × ChangeSet) := do
  let item ← c.require key
  let (new, changes) ← f item
  return (c.put key new, changes)

/-- Adds a draft at the end. -/
def add (c : Collection kind) (submitter : Identity) (mode : SubmissionMode)
    (payload : kind.Payload) : Except Error (Collection kind × ChangeSet) := do
  ensure (kind.keyOf payload ∉ c) (.duplicateItem (kind.ref (kind.keyOf payload)))
  let item := Item.new c.size submitter mode payload
  return (⟨c.items ++ [item]⟩, .add item.ref)

/-- Numbers items in their order, beginning with the given index. -/
def renumber : Nat → List (Item kind) → List (Item kind)
  | _, [] => []
  | n, item :: rest => { item with index := n } :: renumber (n + 1) rest

/-- The moves that `renumber` makes. -/
def movesOf : Nat → List (Item kind) → List IndexMove
  | _, [] => []
  | n, item :: rest =>
    if item.index = n then movesOf (n + 1) rest
    else ⟨item.ref, item.index, n⟩ :: movesOf (n + 1) rest

/-- Removes a draft; the items behind it move up. -/
def remove (c : Collection kind) (key : kind.Key) (actor : Identity) (ctx : CaseContext) :
    Except Error (Collection kind × ChangeSet) :=
  let before := c.items.takeWhile (·.key ≠ key)
  match c.items.dropWhile (·.key ≠ key) with
  | [] => .error (.itemNotFound (kind.ref key))
  | item :: behind => do
    ensure (item.IsHandledBy actor ctx) (item.forbidden actor .remove)
    item.ensureUnconfirmed .remove
    return (⟨before ++ renumber before.length behind⟩,
      { (∅ : ChangeSet) with
        removed := [item.ref], reindexed := movesOf before.length behind })

def visibleTo (c : Collection kind) (viewer : Identity) (ctx : CaseContext) : List (Item kind) :=
  c.items.filter (·.IsVisibleTo viewer ctx)

/-- Every item has the index of its place, counted from `n`. -/
def IsNumberedFrom : Nat → List (Item kind) → Prop
  | _, [] => True
  | n, item :: rest => item.index = n ∧ IsNumberedFrom (n + 1) rest

instance decidableIsNumberedFrom : (n : Nat) → (items : List (Item kind)) →
    Decidable (IsNumberedFrom n items)
  | _, [] => inferInstanceAs (Decidable True)
  | n, item :: rest =>
    have := decidableIsNumberedFrom (n + 1) rest
    inferInstanceAs (Decidable (item.index = n ∧ IsNumberedFrom (n + 1) rest))

/-- The indexes are 0, 1, 2 and so on. -/
def IsContiguous (c : Collection kind) : Prop := IsNumberedFrom 0 c.items

instance (c : Collection kind) : Decidable c.IsContiguous :=
  inferInstanceAs (Decidable (IsNumberedFrom 0 c.items))

/-! ### Delivery of files -/

/-- Sets whether copies of a file go to named recipients only. -/
def restrictDelivery (restricted : Bool) (file : Item .file) : Item .file × ChangeSet :=
  if file.payload.restrictedDelivery = restricted then (file, ∅)
  else Item.noted { file with payload := { file.payload with restrictedDelivery := restricted } }

/-- Records a copy of a confirmed file of restricted delivery, each hash once. -/
def deliverCopy (copy : DeliveredCopy) (file : Item .file) :
    Except Error (Item .file × ChangeSet) := do
  ensure (¬file.IsDraft) (file.stateError .deliver .unconfirmed)
  ensure (file.payload.restrictedDelivery = true) (file.stateError .deliver .unrestrictedDelivery)
  ensure (copy.hash ∉ file.payload.delivered.map DeliveredCopy.hash)
    (.duplicateItem (ItemKind.file.ref copy.hash))
  return Item.noted { file with
    payload := { file.payload with delivered := file.payload.delivered ++ [copy] } }

def setRestrictedDelivery (c : Collection .file) (hash : ContentHash) (restricted : Bool) :
    Except Error (Collection .file × ChangeSet) :=
  c.modify hash fun file => .ok (restrictDelivery restricted file)

def addDeliveredCopy (c : Collection .file) (hash : ContentHash) (copy : DeliveredCopy) :
    Except Error (Collection .file × ChangeSet) :=
  c.modify hash (deliverCopy copy)

end Collection
end CaseRegistry
