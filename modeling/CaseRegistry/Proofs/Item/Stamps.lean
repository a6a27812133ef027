import CaseRegistry.Proofs.Item.Continuity

/-! Stamps of the ledger in any order.

Of each kind of stamp the first one counts, and only if the item does not bear it already. So
an item stamped any number of times is the item with three first values filled in
(`withFirst`), whatever stands between them: one stamp in front of such values is the same as
its value put first among them (`withFirst_stamp`), and the rest is induction. The one field
that two kinds of stamps write is the status, where an acknowledgement prevails over an
addition before it and is respected by one after it. Hence stamps that agree in their first
values, and stamps that change places with those of other kinds, lead to the same item
(`stamps_in_any_order`). -/
namespace CaseRegistry

namespace ItemStamp

/-! ### Stamps of one kind -/

def addedOn? : ItemStamp → Option Timestamp
  | .added on => some on
  | _ => none

def charge? : ItemStamp → Option Fees
  | .fees charge => some charge
  | _ => none

def acknowledgedOn? : ItemStamp → Option Timestamp
  | .acknowledged on => some on
  | _ => none

/-- The same stamps in an order that is the same among those of one kind. -/
structure Reorders (stamps others : List ItemStamp) : Prop where
  added : stamps.filterMap addedOn? = others.filterMap addedOn?
  fees : stamps.filterMap charge? = others.filterMap charge?
  acknowledged : stamps.filterMap acknowledgedOn? = others.filterMap acknowledgedOn?

/-- A value for each kind of stamp, as far as there is one. -/
structure FirstValues where
  addedOn : Option Timestamp
  fees : Option Fees
  acknowledgedOn : Option Timestamp
deriving DecidableEq

/-- The first values that stamps give. -/
def firstValues (stamps : List ItemStamp) : FirstValues where
  addedOn := stamps.findSome? addedOn?
  fees := stamps.findSome? charge?
  acknowledgedOn := stamps.findSome? acknowledgedOn?

/-- First values with the one of a stamp in front of them. -/
def FirstValues.behind (values : FirstValues) : ItemStamp → FirstValues
  | .added on => { values with addedOn := some on }
  | .fees fees => { values with fees := some fees }
  | .acknowledged on => { values with acknowledgedOn := some on }

theorem firstValues_cons (stamp : ItemStamp) (stamps : List ItemStamp) :
    firstValues (stamp :: stamps) = (firstValues stamps).behind stamp := by
  cases stamp <;>
    simp [firstValues, FirstValues.behind, List.findSome?_cons, addedOn?, charge?, acknowledgedOn?]

theorem Reorders.firstValues_eq {stamps others : List ItemStamp} (h : Reorders stamps others) :
    firstValues stamps = firstValues others := by
  unfold firstValues
  rw [← List.head?_filterMap, h.added, ← List.head?_filterMap, h.fees, ← List.head?_filterMap,
    h.acknowledged]
  simp only [List.head?_filterMap]

end ItemStamp

namespace Item

open ItemStamp

variable {kind : ItemKind}

/-- The item after stamps one after the other. -/
def stampAll (stamps : List ItemStamp) (item : Item kind) : Item kind :=
  stamps.foldl (fun item stamp => (item.stamp stamp).1) item

/-- Where an item stands once the first times are filled in: acknowledged if that is new, and else
as the ledger leaves what it takes in. -/
def statusWith (addedOn acknowledgedOn : Option Timestamp) (item : Item kind) : ItemStatus :=
  if item.acknowledgedOn = none ∧ acknowledgedOn.isSome then .acknowledged
  else if item.addedOn = none ∧ addedOn.isSome then item.statusOnceAdded
  else item.status

/-- The item with first values filled in where it has none. -/
def withFirst (values : FirstValues) (item : Item kind) : Item kind :=
  { item with
    addedOn := item.addedOn.or values.addedOn
    fees := item.fees.or values.fees
    acknowledgedOn := item.acknowledgedOn.or values.acknowledgedOn
    status := item.statusWith values.addedOn values.acknowledgedOn }

theorem withFirst_none (item : Item kind) : item.withFirst (firstValues []) = item := by
  simp [withFirst, statusWith, firstValues]

/-- A stamp that the item bears already has nothing to put in front. -/
theorem withFirst_behind_of_bears {item : Item kind} {stamp : ItemStamp} (again : item.Bears stamp)
    (values : FirstValues) : item.withFirst (values.behind stamp) = item.withFirst values := by
  cases stamp with
  | added on =>
    obtain ⟨first, set⟩ := Option.isSome_iff_exists.mp again
    simp [withFirst, FirstValues.behind, statusWith, set]
  | fees charge =>
    obtain ⟨first, set⟩ := Option.isSome_iff_exists.mp again
    simp [withFirst, FirstValues.behind, set]
  | acknowledged on =>
    obtain ⟨first, set⟩ := Option.isSome_iff_exists.mp again
    have standing (acknowledgedOn : Option Timestamp) :
        item.statusWith values.addedOn acknowledgedOn = item.statusWith values.addedOn none := by
      simp [statusWith, set]
    simp only [withFirst, FirstValues.behind, standing, set, Option.some_or]

/-- A stamp in front of values is its own value put first among them. -/
theorem withFirst_stamp (item : Item kind) (stamp : ItemStamp) (values : FirstValues) :
    (item.stamp stamp).1.withFirst values = item.withFirst (values.behind stamp) := by
  have stamped := item.stamped_stamp stamp
  generalize (item.stamp stamp).1 = later at stamped ⊢
  cases stamped with
  | same again => rw [withFirst_behind_of_bears again]
  | added fresh => simp [withFirst, FirstValues.behind, statusWith, fresh]
  | @fees charge fresh =>
    have standing (addedOn acknowledgedOn : Option Timestamp) :
        statusWith addedOn acknowledgedOn { item with fees := some charge } =
          item.statusWith addedOn acknowledgedOn := rfl
    simp [withFirst, FirstValues.behind, standing, fresh]
  -- Once acknowledged, the item keeps its status when the ledger takes it in.
  | acknowledged fresh => simp [withFirst, FirstValues.behind, statusWith, statusOnceAdded, fresh]

theorem stampAll_eq_withFirst (stamps : List ItemStamp) (item : Item kind) :
    item.stampAll stamps = item.withFirst (firstValues stamps) := by
  induction stamps generalizing item with
  | nil => exact (withFirst_none item).symm
  | cons stamp rest ih =>
    rw [firstValues_cons, ← withFirst_stamp]
    exact ih (item.stamp stamp).1

/-- However often the ledger stamps an item, it becomes the item with the first value of each kind
filled in. So it depends on these values only, and stamps may change places with those of other
kinds. -/
theorem stamps_in_any_order (item : Item kind) (stamps : List ItemStamp) :
    item.stampAll stamps = item.withFirst (firstValues stamps) ∧
      ∀ others : List ItemStamp,
        (firstValues stamps = firstValues others → item.stampAll stamps = item.stampAll others) ∧
        (Reorders stamps others → item.stampAll stamps = item.stampAll others) := by
  have closed := stampAll_eq_withFirst stamps item
  have alike : ∀ others, firstValues stamps = firstValues others →
      item.stampAll stamps = item.stampAll others := fun others same => by
    rw [closed, stampAll_eq_withFirst others, same]
  exact ⟨closed, fun others => ⟨alike others, fun reorders => alike others reorders.firstValues_eq⟩⟩

end Item

/-! ### An inventory that is stamped twice over -/

namespace Sample

def inventory : Item .metadata := .new 0 ⟨"heir"⟩ .direct ⟨"inventory", "a desk"⟩

/-- The inventory is taken in and acknowledged, and both are said again at another time. -/
def inventoryStamps : List ItemStamp :=
  [.added .epoch, .fees ⟨1, some 2⟩, .acknowledged ⟨5⟩, .added ⟨7⟩, .acknowledged ⟨9⟩]

/-- The same, with both acknowledgements ahead. -/
def inventoryStampsMoved : List ItemStamp :=
  [.acknowledged ⟨5⟩, .acknowledged ⟨9⟩, .added .epoch, .added ⟨7⟩, .fees ⟨1, some 2⟩]

end Sample

theorem Item.stamps_of_inventory :
    ItemStamp.Reorders Sample.inventoryStamps Sample.inventoryStampsMoved ∧
      Sample.inventory.stampAll Sample.inventoryStamps = Sample.inventory.stampAll Sample.inventoryStampsMoved ∧
      Sample.inventory.stampAll Sample.inventoryStampsMoved =
        { Sample.inventory with
          status := .acknowledged
          addedOn := some .epoch
          acknowledgedOn := some ⟨5⟩
          fees := some ⟨1, some 2⟩ } := by
  have reorders : ItemStamp.Reorders Sample.inventoryStamps Sample.inventoryStampsMoved := ⟨rfl, rfl, rfl⟩
  have same := ((Item.stamps_in_any_order Sample.inventory Sample.inventoryStamps).2 _).2 reorders
  exact ⟨reorders, same, (Item.stamps_in_any_order Sample.inventory Sample.inventoryStampsMoved).1⟩

end CaseRegistry
