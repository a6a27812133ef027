import CaseRegistry.Item.Kind

/-!
Change sets: what an operation did to the items of a case, told item by item. A store that keeps
items in rows of their own applies a change set without comparing whole cases. Change sets of
operations that follow one another are merged into one.
-/
namespace CaseRegistry

/-- An item that stayed while its place in the listing changed. -/
structure IndexMove where
  item : ItemRef
  before : Nat
  after : Nat
deriving DecidableEq

structure ChangeSet where
  /-- Items to insert. -/
  added : List ItemRef
  /-- Items to write over. -/
  updated : List ItemRef
  /-- Items to delete. -/
  removed : List ItemRef
  /-- Items to number anew. -/
  reindexed : List IndexMove
deriving DecidableEq

namespace ChangeSet

def empty : ChangeSet := ⟨[], [], [], []⟩

instance : EmptyCollection ChangeSet := ⟨empty⟩

instance : Inhabited ChangeSet := ⟨∅⟩

def add (item : ItemRef) : ChangeSet := { empty with added := [item] }

def update (item : ItemRef) : ChangeSet := { empty with updated := [item] }

def IsEmpty (c : ChangeSet) : Prop := c = ∅

instance (c : ChangeSet) : Decidable c.IsEmpty := inferInstanceAs (Decidable (c = ∅))

/-- Nothing is inserted, deleted or numbered anew. -/
def IsUpdateOnly (c : ChangeSet) : Prop := c.added = [] ∧ c.removed = [] ∧ c.reindexed = []

instance (c : ChangeSet) : Decidable c.IsUpdateOnly := inferInstanceAs (Decidable (_ ∧ _ ∧ _))

/-- Notes an insertion, once. -/
def noteAdded (c : ChangeSet) (item : ItemRef) : ChangeSet :=
  if item ∈ c.added then c else { c with added := c.added ++ [item] }

/-- Notes a deletion, once; what was noted about the item before is dropped. -/
def noteRemoved (c : ChangeSet) (item : ItemRef) : ChangeSet where
  added := c.added.filter (· ≠ item)
  updated := c.updated.filter (· ≠ item)
  removed := if item ∈ c.removed then c.removed else c.removed ++ [item]
  reindexed := c.reindexed.filter (·.item ≠ item)

/-- Notes an update, once, unless an insertion or deletion of the item covers it. -/
def noteUpdated (c : ChangeSet) (item : ItemRef) : ChangeSet :=
  if item ∈ c.added ∨ item ∈ c.removed ∨ item ∈ c.updated then c
  else { c with updated := c.updated ++ [item] }

/-- Takes a move into a list of moves, prolonging the first one of the same item. -/
def prolong (move : IndexMove) : List IndexMove → List IndexMove
  | [] => [move]
  | first :: rest =>
    if first.item = move.item then { first with after := move.after } :: rest
    else first :: prolong move rest

def noteMoved (c : ChangeSet) (move : IndexMove) : ChangeSet :=
  { c with reindexed := prolong move c.reindexed }

/-- Drops the moves that lead back to where they began. -/
def dropStays (c : ChangeSet) : ChangeSet :=
  { c with reindexed := c.reindexed.filter fun move => move.before ≠ move.after }

/-- The changes of `c` followed by those of `later`. -/
def merge (c later : ChangeSet) : ChangeSet :=
  let c := later.added.foldl noteAdded c
  let c := later.removed.foldl noteRemoved c
  let c := later.updated.foldl noteUpdated c
  (later.reindexed.foldl noteMoved c).dropStays

/-- All changes of a run of operations. -/
def mergeAll (changes : List ChangeSet) : ChangeSet := changes.foldl merge ∅

/-! ### Updates alone -/

theorem isUpdateOnly_empty : IsUpdateOnly ∅ := ⟨rfl, rfl, rfl⟩

theorem isUpdateOnly_update (item : ItemRef) : (update item).IsUpdateOnly := ⟨rfl, rfl, rfl⟩

theorem IsUpdateOnly.noteUpdated {c : ChangeSet} (h : c.IsUpdateOnly) (item : ItemRef) :
    (c.noteUpdated item).IsUpdateOnly := by
  unfold ChangeSet.noteUpdated
  split
  · exact h
  · exact h

theorem IsUpdateOnly.noteAll {c : ChangeSet} (h : c.IsUpdateOnly) (items : List ItemRef) :
    (items.foldl ChangeSet.noteUpdated c).IsUpdateOnly := by
  induction items generalizing c with
  | nil => exact h
  | cons item rest ih => exact ih (h.noteUpdated item)

/-- Updates followed by updates are updates. -/
theorem IsUpdateOnly.merge {c later : ChangeSet} (h : c.IsUpdateOnly) (h' : later.IsUpdateOnly) :
    (c.merge later).IsUpdateOnly := by
  unfold ChangeSet.merge
  rw [h'.1, h'.2.1, h'.2.2]
  obtain ⟨added, removed, reindexed⟩ := h.noteAll later.updated
  exact ⟨added, removed, by simp [dropStays, reindexed]⟩

end ChangeSet
end CaseRegistry
