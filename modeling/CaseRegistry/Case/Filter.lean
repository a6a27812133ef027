import CaseRegistry.Case.Basic

/-!
Filters for listing cases. A criterion that is not set is met by every case.
-/
namespace CaseRegistry

structure CaseFilter where
  owner : Option Identity
  /-- The address of the requester. -/
  requester : Option Identity
  kind : Option CaseKind
  /-- Any of these; none given means any status. -/
  statuses : List CaseStatus
deriving DecidableEq

namespace CaseFilter

/-- The filter that every case passes. -/
def all : CaseFilter := ⟨none, none, none, []⟩

instance : Inhabited CaseFilter := ⟨all⟩

def Matches (f : CaseFilter) (c : Case) : Prop :=
  (∀ owner ∈ f.owner, owner = c.owner)
    ∧ (∀ requester ∈ f.requester, c.requesterAddress = some requester)
    ∧ (∀ kind ∈ f.kind, kind = c.kind)
    ∧ (f.statuses = [] ∨ c.status ∈ f.statuses)

instance (f : CaseFilter) (c : Case) : Decidable (f.Matches c) :=
  inferInstanceAs (Decidable (_ ∧ _ ∧ _ ∧ _))

end CaseFilter
end CaseRegistry
