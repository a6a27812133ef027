import CaseRegistry.Time.Timestamp

/-!
Checkpoints: for each stream the height up to which the ledger has been followed.
-/
namespace CaseRegistry

/-- A checkpoint as it is handed on, with the time at which it was set. -/
structure CheckpointRecord where
  /-- The stream. -/
  name : String
  height : Nat
  updatedOn : Timestamp
deriving DecidableEq

structure Checkpoints where
  /-- The newest first. -/
  entries : List (String × Nat)
deriving DecidableEq

namespace Checkpoints

def empty : Checkpoints := ⟨[]⟩

instance : Inhabited Checkpoints := ⟨empty⟩

def height? (c : Checkpoints) (stream : String) : Option Nat :=
  (c.entries.find? (·.1 = stream)).map Prod.snd

def delete (c : Checkpoints) (stream : String) : Checkpoints :=
  ⟨c.entries.filter (·.1 ≠ stream)⟩

def save (c : Checkpoints) (stream : String) (height : Nat) : Checkpoints :=
  ⟨(stream, height) :: (c.delete stream).entries⟩

theorem height?_delete (c : Checkpoints) (stream other : String) :
    (c.delete stream).height? other = if other = stream then none else c.height? other := by
  unfold height? delete
  rw [List.find?_filter]
  split
  · next same => simp [same]
  · next ne =>
    congr 1
    congr 1
    funext entry
    by_cases h : entry.1 = other
    · simp [h, ne]
    · simp [h]

theorem height?_save (c : Checkpoints) (stream other : String) (height : Nat) :
    (c.save stream height).height? other =
      if other = stream then some height else c.height? other := by
  by_cases h : other = stream
  · simp [save, height?, h]
  · have := height?_delete c stream other
    simp only [h, if_false] at this ⊢
    rw [← this]
    simp [save, height?, Ne.symm h]

end Checkpoints
end CaseRegistry
