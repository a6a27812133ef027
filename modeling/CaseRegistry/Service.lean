import CaseRegistry.Store.Backend

/-!
The case service: cases are made, looked up and changed in a backend. A change works on a copy of
the stored case, which is saved only if the whole change succeeds.
-/
namespace CaseRegistry.Backend

variable {σ : Type} (b : Backend σ)

/-- Stores a new case; its identifier must not be taken. -/
def createCase (c : Case) : Action σ Case := do
  let known ← b.findCase c.id
  Action.ofExcept (ensure (known = none) (.invalidCase (.taken c.id)))
  b.saveCase c ∅
  return c

def getCase (id : CaseId) : Action σ Case := do
  match ← b.findCase id with
  | some c => return c
  | none => Action.fail (.caseNotFound id)

/-- Saves the outcome of a change to a copy, or passes its failure on. -/
def commit : Except Error ChangeSet × Case → Action σ Case
  | (.ok changes, c) => do
    b.saveCase c changes
    return c
  | (.error e, _) => Action.fail e

/-- Changes a stored case. -/
def mutate (id : CaseId) (change : Action Case ChangeSet) : Action σ Case := do
  let c ← b.getCase id
  b.commit (change.run c)

end CaseRegistry.Backend
