import CaseRegistry.Proofs.Item.Lookup
import Mathlib.Data.List.Nodup

/-! Keys and places in a collection.

A collection is a listing (`Collection.IsListing`) if no two items of it have the same key
and each has the index of its place. A change to an item in its place leaves the keys, an
addition puts one behind the others and a removal takes one out (`keys_put`, `keys_add`,
`keys_remove`), and what comes of a listing by any of them is a listing. In a listing, the
items are those found under their keys (`IsListing.mem_iff`), and the index of an item is
the place of its key among the keys (`IsListing.index_eq`). -/
namespace CaseRegistry.Collection

variable {kind : ItemKind} {c c' : Collection kind} {key : kind.Key} {item new : Item kind}
  {changes : ChangeSet}

/-! ### Items -/

theorem mem_putFirst {items : List (Item kind)} {x : Item kind} (mem : x ∈ putFirst key new items) :
    x = new ∨ x ∈ items := by
  induction items with
  | nil => cases mem
  | cons first rest ih =>
    unfold putFirst at mem
    split at mem
    · exact (List.mem_cons.mp mem).imp_right (List.mem_cons_of_mem first)
    · rcases List.mem_cons.mp mem with rfl | behind
      · exact .inr List.mem_cons_self
      · exact (ih behind).imp_right (List.mem_cons_of_mem first)

theorem mem_renumber {n : Nat} {items : List (Item kind)} {x : Item kind} (mem : x ∈ renumber n items) :
    ∃ item ∈ items, ∃ m, x = { item with index := m } := by
  induction items generalizing n with
  | nil => cases mem
  | cons first rest ih =>
    rcases List.mem_cons.mp mem with rfl | behind
    · exact ⟨first, List.mem_cons_self, n, rfl⟩
    · obtain ⟨item, hitem, m, rfl⟩ := ih behind
      exact ⟨item, List.mem_cons_of_mem first hitem, m, rfl⟩

theorem mem_of_get? (found : c.get? key = some item) : item ∈ c.items :=
  List.mem_of_find?_eq_some found

/-! ### Keys -/

theorem map_key_putFirst (same : new.key = key) (items : List (Item kind)) :
    (putFirst key new items).map Item.key = items.map Item.key := by
  induction items with
  | nil => rfl
  | cons item rest ih =>
    by_cases hk : item.key = key
    · simp [putFirst, hk, same]
    · simp [putFirst, hk, ih]

theorem keys_put (c : Collection kind) (same : new.key = key) : (c.put key new).keys = c.keys :=
  map_key_putFirst same c.items

theorem map_key_renumber (n : Nat) (items : List (Item kind)) :
    (renumber n items).map Item.key = items.map Item.key := by
  induction items generalizing n with
  | nil => rfl
  | cons item rest ih =>
    rw [renumber, List.map_cons, List.map_cons, ih]
    rfl

/-- Numbering anew touches nothing but the places. -/
theorem map_record_renumber (n : Nat) (items : List (Item kind)) :
    (renumber n items).map Item.record = items.map Item.record := by
  induction items generalizing n with
  | nil => rfl
  | cons item rest ih =>
    rw [renumber, List.map_cons, List.map_cons, ih]
    rfl

theorem keys_add {submitter : Identity} {mode : SubmissionMode} {payload : kind.Payload}
    (h : c.add submitter mode payload = .ok (c', changes)) :
    c'.keys = c.keys ++ [kind.keyOf payload] := by
  obtain ⟨_, rfl, _⟩ := add_eq_ok.mp h
  exact List.map_append

theorem keys_remove {actor : Identity} {ctx : CaseContext}
    (h : c.remove key actor ctx = .ok (c', changes)) : c'.keys = c.keys.erase key := by
  obtain ⟨before, item, behind, whole, ahead, rfl, _, _, rfl, _⟩ := remove_ok h
  have absent : item.key ∉ before.map Item.key := by
    rintro mem
    obtain ⟨x, hx, same⟩ := List.mem_map.mp mem
    exact ahead x hx same
  unfold keys
  rw [whole, List.map_append, List.map_append, map_key_renumber, List.erase_append_right _ absent,
    List.map_cons, List.erase_cons_head]

theorem mem_iff_keys : key ∈ c ↔ key ∈ c.keys := by
  show (c.get? key).isSome ↔ key ∈ c.items.map Item.key
  simp [get?]

/-- An item whose key no other item has is the one found under it. -/
theorem eq_of_count_keys_le {other : Item kind} (single : c.keys.count key ≤ 1)
    (found : c.get? key = some item) (mem : other ∈ c.items) (same : other.key = key) : other = item := by
  obtain ⟨items⟩ := c
  induction items with
  | nil => cases mem
  | cons first rest ih =>
    by_cases hk : first.key = key
    · obtain rfl : first = item := by simpa [get?, hk] using found
      refine (List.mem_cons.mp mem).resolve_right fun behind => ?_
      have listed : 0 < (rest.map Item.key).count key :=
        List.count_pos_iff.mpr (same ▸ List.mem_map_of_mem behind)
      simp only [keys, List.map_cons, hk, List.count_cons_self] at single
      omega
    · refine ih ?_ (by simpa [get?, hk] using found) ((List.mem_cons.mp mem).resolve_left fun eq => ?_)
      · simpa [keys, hk] using single
      · exact hk (eq ▸ same)

/-- What is left moves up, if at all. -/
theorem idxOf_erase_le {α : Type} [DecidableEq α] {a b : α} (ne : a ≠ b) (l : List α) :
    (l.erase b).idxOf a ≤ l.idxOf a := by
  induction l with
  | nil => exact Nat.le_refl _
  | cons x rest ih =>
    by_cases hb : x = b
    · rw [hb, List.erase_cons_head, List.idxOf_cons_ne _ ne.symm]
      exact Nat.le_succ _
    · rw [List.erase_cons_tail (by simpa using hb)]
      by_cases ha : x = a
      · rw [ha, List.idxOf_cons_self]
        exact Nat.zero_le _
      · rw [List.idxOf_cons_ne _ ha, List.idxOf_cons_ne _ ha]
        exact Nat.succ_le_succ ih

/-! ### Places -/

theorem isNumberedFrom_append (n : Nat) (before behind : List (Item kind)) :
    IsNumberedFrom n (before ++ behind) ↔
      IsNumberedFrom n before ∧ IsNumberedFrom (n + before.length) behind := by
  induction before generalizing n with
  | nil => simp [IsNumberedFrom]
  | cons item rest ih =>
    simp only [List.cons_append, IsNumberedFrom, ih, List.length_cons, and_assoc]
    rw [show n + 1 + rest.length = n + (rest.length + 1) by omega]

theorem isNumberedFrom_renumber (n : Nat) (items : List (Item kind)) :
    IsNumberedFrom n (renumber n items) := by
  induction items generalizing n with
  | nil => trivial
  | cons item rest ih => exact ⟨rfl, ih (n + 1)⟩

theorem isNumberedFrom_iff {n : Nat} {items : List (Item kind)} :
    IsNumberedFrom n items ↔ items.map Item.index = List.range' n items.length := by
  induction items generalizing n with
  | nil => simp [IsNumberedFrom]
  | cons item rest ih => simp [IsNumberedFrom, ih, List.range'_succ]

theorem map_index_putFirst {items : List (Item kind)}
    (found : items.find? (·.key = key) = some item) (same : new.index = item.index) :
    (putFirst key new items).map Item.index = items.map Item.index := by
  induction items with
  | nil => cases found
  | cons first rest ih =>
    by_cases hk : first.key = key
    · have hf : first = item := by simpa [hk] using found
      rw [putFirst, if_pos hk, List.map_cons, List.map_cons, same, hf]
    · rw [putFirst, if_neg hk, List.map_cons, List.map_cons, ih (by simpa [hk] using found)]

theorem index_of_isNumberedFrom {n : Nat} {items : List (Item kind)} (h : IsNumberedFrom n items)
    (distinct : (items.map Item.key).Nodup) (mem : item ∈ items) :
    item.index = n + (items.map Item.key).idxOf item.key := by
  induction items generalizing n with
  | nil => cases mem
  | cons first rest ih =>
    rw [List.map_cons, List.nodup_cons] at distinct
    rcases List.mem_cons.mp mem with rfl | behind
    · rw [List.map_cons, List.idxOf_cons_self]
      exact h.1
    · have ne : first.key ≠ item.key := fun same =>
        distinct.1 (same ▸ List.mem_map_of_mem behind)
      rw [List.map_cons, List.idxOf_cons_ne _ ne, ih h.2 distinct.2 behind]
      omega

/-- The indexes of the items, in order. -/
def indexes (c : Collection kind) : List Nat := c.items.map Item.index

theorem isContiguous_iff : c.IsContiguous ↔ c.indexes = List.range c.size := by
  rw [List.range_eq_range']
  exact isNumberedFrom_iff

theorem indexes_put (found : c.get? key = some item) (same : new.index = item.index) :
    (c.put key new).indexes = c.indexes :=
  map_index_putFirst found same

/-! ### Listings -/

structure IsListing (c : Collection kind) : Prop where
  distinct : c.keys.Nodup
  contiguous : c.IsContiguous

theorem isListing_empty : (∅ : Collection kind).IsListing := ⟨List.nodup_nil, trivial⟩

theorem IsListing.index_eq (h : c.IsListing) (mem : item ∈ c.items) :
    item.index = c.keys.idxOf item.key := by
  rw [index_of_isNumberedFrom h.contiguous h.distinct mem, Nat.zero_add]
  rfl

/-- In a listing every item is the one found under its key. -/
theorem IsListing.mem_iff (h : c.IsListing) : item ∈ c.items ↔ c.get? item.key = some item := by
  refine ⟨fun mem => ?_, mem_of_get?⟩
  obtain ⟨found, hfound⟩ := Option.isSome_iff_exists.mp (mem_iff_keys.mpr (List.mem_map_of_mem mem))
  have same : found = item :=
    List.inj_on_of_nodup_map h.distinct (mem_of_get? hfound) mem (key_of_get? hfound)
  rw [hfound, same]

theorem IsListing.put (h : c.IsListing) (found : c.get? key = some item) (same : new.key = item.key)
    (place : new.index = item.index) : (c.put key new).IsListing where
  distinct := (keys_put c (same.trans (key_of_get? found))) ▸ h.distinct
  contiguous := by
    have places := indexes_put found place
    have sizes : (c.put key new).size = c.size := by
      simpa [indexes, size] using congrArg List.length places
    rw [isContiguous_iff, places, sizes]
    exact isContiguous_iff.mp h.contiguous

theorem IsListing.add {submitter : Identity} {mode : SubmissionMode} {payload : kind.Payload}
    (h : c.IsListing) (done : c.add submitter mode payload = .ok (c', changes)) : c'.IsListing where
  distinct := by
    have fresh : kind.keyOf payload ∉ c.keys := mem_iff_keys.not.mp (add_eq_ok.mp done).1
    rw [keys_add done, ← List.concat_eq_append]
    exact .concat fresh h.distinct
  contiguous := by
    obtain ⟨_, rfl, _⟩ := add_eq_ok.mp done
    exact (isNumberedFrom_append 0 c.items _).mpr ⟨h.contiguous, (Nat.zero_add _).symm, trivial⟩

theorem IsListing.remove {actor : Identity} {ctx : CaseContext} (h : c.IsListing)
    (done : c.remove key actor ctx = .ok (c', changes)) : c'.IsListing where
  distinct := keys_remove done ▸ h.distinct.erase key
  contiguous := by
    obtain ⟨before, item, behind, whole, _, _, _, _, rfl, _⟩ := remove_ok done
    have numbered := h.contiguous
    unfold IsContiguous at numbered ⊢
    rw [whole, isNumberedFrom_append] at numbered
    rw [isNumberedFrom_append, Nat.zero_add]
    exact ⟨numbered.1, isNumberedFrom_renumber _ _⟩

end CaseRegistry.Collection
