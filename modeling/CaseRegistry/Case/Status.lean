/-!
The life cycle of a case and the kinds of cases. A case goes from draft to requested, from there
to rejected or opened, from rejected back to draft, and from opened to closed.
-/
namespace CaseRegistry

inductive CaseStatus where
  | draft
  | requested
  | rejected
  | opened
  | closed
deriving DecidableEq

def CaseStatus.all : List CaseStatus := [.draft, .requested, .rejected, .opened, .closed]

def CaseStatus.label : CaseStatus → String
  | .draft => "DRAFT"
  | .requested => "REQUESTED"
  | .rejected => "REJECTED"
  | .opened => "OPEN"
  | .closed => "CLOSED"

instance : ToString CaseStatus := ⟨CaseStatus.label⟩

inductive CaseKind where
  /-- About a person. -/
  | identity
  | transaction
  | collection
deriving DecidableEq

end CaseRegistry
