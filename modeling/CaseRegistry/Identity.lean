/-!
Who acts: identities, and sets of them kept in the order of their addresses.
-/
namespace CaseRegistry

/-- An account, known by its address. Addresses are compared character by character. -/
structure Identity where
  address : String
deriving DecidableEq

namespace Identity

/-- Addresses are ordered by their code points, which is the order of their UTF-8 bytes. -/
instance : LT Identity := ⟨fun a b => a.address < b.address⟩

instance (a b : Identity) : Decidable (a < b) := inferInstanceAs (Decidable (a.address < b.address))

instance : ToString Identity := ⟨Identity.address⟩

theorem lt_trans {a b c : Identity} (ab : a < b) (bc : b < c) : a < c :=
  String.lt_trans ab bc

theorem lt_of_not_lt_of_ne {a b : Identity} (h : ¬a < b) (ne : a ≠ b) : b < a := by
  refine Classical.byContradiction fun h' => ne ?_
  cases a
  cases b
  exact congrArg _ (String.le_antisymm (String.not_lt.1 h') (String.not_lt.1 h))

end Identity

/-- A set of identities, listed once each in ascending order. -/
structure IdentitySet where
  toList : List Identity
  sorted : toList.Pairwise (· < ·)
deriving DecidableEq

namespace IdentitySet

def empty : IdentitySet := ⟨[], .nil⟩

instance : EmptyCollection IdentitySet := ⟨empty⟩

instance : Inhabited IdentitySet := ⟨∅⟩

instance : Membership Identity IdentitySet := ⟨fun set who => who ∈ set.toList⟩

instance (who : Identity) (set : IdentitySet) : Decidable (who ∈ set) :=
  inferInstanceAs (Decidable (who ∈ set.toList))

def insertSorted (who : Identity) : List Identity → List Identity
  | [] => [who]
  | other :: rest =>
    if who = other then other :: rest
    else if who < other then who :: other :: rest
    else other :: insertSorted who rest

theorem mem_insertSorted {a who : Identity} {list : List Identity} :
    a ∈ insertSorted who list ↔ a = who ∨ a ∈ list := by
  induction list with
  | nil => simp [insertSorted]
  | cons other rest ih => grind [insertSorted]

theorem pairwise_insertSorted {who : Identity} {list : List Identity}
    (sorted : list.Pairwise (· < ·)) : (insertSorted who list).Pairwise (· < ·) := by
  induction list with
  | nil => simp [insertSorted]
  | cons other rest ih =>
    unfold insertSorted
    rw [List.pairwise_cons] at sorted
    split
    · exact List.pairwise_cons.2 sorted
    · next ne =>
      split
      · next lt =>
        refine List.pairwise_cons.2 ⟨fun a ha => ?_, List.pairwise_cons.2 sorted⟩
        rcases List.mem_cons.1 ha with rfl | ha
        · exact lt
        · exact Identity.lt_trans lt (sorted.1 a ha)
      · next nlt =>
        refine List.pairwise_cons.2 ⟨fun a ha => ?_, ih sorted.2⟩
        rcases mem_insertSorted.1 ha with rfl | ha
        · exact Identity.lt_of_not_lt_of_ne nlt ne
        · exact sorted.1 a ha

def insert (who : Identity) (set : IdentitySet) : IdentitySet :=
  ⟨insertSorted who set.toList, pairwise_insertSorted set.sorted⟩

def erase (who : Identity) (set : IdentitySet) : IdentitySet :=
  ⟨set.toList.filter (· ≠ who), set.sorted.filter _⟩

def ofList (list : List Identity) : IdentitySet := list.foldl (fun set who => set.insert who) ∅

@[simp] theorem mem_insert {a who : Identity} {set : IdentitySet} :
    a ∈ set.insert who ↔ a = who ∨ a ∈ set := mem_insertSorted

@[simp] theorem mem_erase {a who : Identity} {set : IdentitySet} :
    a ∈ set.erase who ↔ a ∈ set ∧ a ≠ who := by
  change a ∈ set.toList.filter (· ≠ who) ↔ a ∈ set.toList ∧ a ≠ who
  simp

end IdentitySet
end CaseRegistry
