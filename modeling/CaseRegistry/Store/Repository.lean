import CaseRegistry.Case.Filter
import CaseRegistry.ChangeSet

/-!
The repository: cases by their identifier, listed in the order in which they first came. A case
that is saved again keeps its place. Change sets that came with saves are kept in their order.
-/
namespace CaseRegistry

structure Repository where
  /-- In listing order, one for each identifier. -/
  cases : List Case
  /-- The change sets of all saves, oldest first. -/
  saves : List (CaseId × ChangeSet)
deriving DecidableEq

namespace Repository

def empty : Repository := ⟨[], []⟩

instance : Inhabited Repository := ⟨empty⟩

def find? (r : Repository) (id : CaseId) : Option Case := r.cases.find? (·.id = id)

/-- The cases that pass a filter, in listing order. -/
def list (r : Repository) (filter : CaseFilter) : List Case :=
  r.cases.filter fun c => filter.Matches c

def size (r : Repository) : Nat := r.cases.length

/-- Puts a case in the place of the one with its identifier, or else at the end. -/
def place (c : Case) : List Case → List Case
  | [] => [c]
  | other :: rest => if other.id = c.id then c :: rest else other :: place c rest

/-- Puts a case in without noting a save. -/
def insert (r : Repository) (c : Case) : Repository := { r with cases := place c r.cases }

def save (r : Repository) (c : Case) (changes : ChangeSet) : Repository where
  cases := place c r.cases
  saves := r.saves ++ [(c.id, changes)]

theorem find?_place (c : Case) (cases : List Case) (id : CaseId) :
    (place c cases).find? (·.id = id) =
      if c.id = id then some c else cases.find? (·.id = id) := by
  induction cases with
  | nil => by_cases h : c.id = id <;> simp [place, h]
  | cons other rest ih =>
    by_cases h : other.id = c.id
    · by_cases hid : c.id = id <;> simp [place, h, hid]
    · by_cases hid : other.id = id
      · subst hid
        simp [place, h, Ne.symm h]
      · simp [place, h, hid, ih]

@[simp] theorem find?_insert (r : Repository) (c : Case) (id : CaseId) :
    (r.insert c).find? id = if c.id = id then some c else r.find? id :=
  find?_place c r.cases id

@[simp] theorem find?_save (r : Repository) (c : Case) (changes : ChangeSet) (id : CaseId) :
    (r.save c changes).find? id = if c.id = id then some c else r.find? id :=
  find?_place c r.cases id

end Repository
end CaseRegistry
