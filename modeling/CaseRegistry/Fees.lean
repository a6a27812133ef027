/-!
Fees that the ledger charged for an operation.
-/
namespace CaseRegistry

structure Fees where
  /-- For taking the operation into a block. -/
  inclusion : Nat
  /-- For keeping content, where there is any. -/
  storage : Option Nat
deriving DecidableEq

instance : Inhabited Fees := ⟨0, none⟩

end CaseRegistry
