import CaseRegistry.Proofs.Json.Reading

/-! Ordering the fields of objects.

The form with ordered fields is reached in one step (`canonical_canonical`), fits where the value
fits, and of an object with different names it has the very fields, rearranged
(`canonicalFields_perm`). What can be told from a value so rearranged is told of `Rearranges`, which
leaving the value alone is a case of. -/
namespace CaseRegistry.Json

variable {name : String} {value j : Json} {fields done : List (String × Json)} {depth : Nat}

/-! ### One field -/

def AreOrdered (fields : List (String × Json)) : Prop := fields.Pairwise fun a b => a.1 < b.1

theorem eq_or_mem_of_mem_insertField {f : String × Json} (mem : f ∈ insertField name value fields) :
    f = (name, value) ∨ f ∈ fields := by
  induction fields with
  | nil => simpa [insertField] using mem
  | cons g rest ih =>
    unfold insertField at mem
    grind

theorem areOrdered_insertField (ordered : AreOrdered fields) :
    AreOrdered (insertField name value fields) := by
  induction fields with
  | nil => simp [insertField, AreOrdered]
  | cons g rest ih =>
    obtain ⟨first, others⟩ := List.pairwise_cons.1 ordered
    unfold insertField
    split
    · next same => exact List.pairwise_cons.2 ⟨same ▸ first, others⟩
    split
    · next lt =>
      refine List.pairwise_cons.2 ⟨List.forall_mem_cons.2 ⟨lt, fun f mem => ?_⟩, ordered⟩
      exact String.lt_trans lt (first f mem)
    · next ne nlt =>
      refine List.pairwise_cons.2 ⟨fun f mem => ?_, ih others⟩
      rcases eq_or_mem_of_mem_insertField mem with rfl | mem
      · refine Classical.byContradiction fun nlt' => ne ?_
        exact String.le_antisymm (String.not_lt.1 nlt') (String.not_lt.1 nlt)
      · exact first f mem

theorem insertField_perm (fresh : ∀ f ∈ fields, f.1 ≠ name) :
    (insertField name value fields).Perm ((name, value) :: fields) := by
  induction fields with
  | nil => exact .refl _
  | cons g rest ih =>
    obtain ⟨first, others⟩ := List.forall_mem_cons.1 fresh
    unfold insertField
    rw [if_neg (Ne.symm first)]
    split
    · exact .refl _
    · exact ((ih others).cons g).trans (.swap _ _ _)

/-! ### All fields -/

def canonicalField (field : String × Json) : String × Json := (field.1, field.2.canonical)

theorem canonicalElements_eq (elements : List Json) :
    canonicalElements elements = elements.map canonical := by
  induction elements with
  | nil => rfl
  | cons e rest ih => simp [canonicalElements, ih]

theorem areOrdered_canonicalFields (ordered : AreOrdered done) :
    AreOrdered (canonicalFields done fields) := by
  induction fields generalizing done with
  | nil => exact ordered
  | cons f rest ih => exact ih (areOrdered_insertField ordered)

theorem mem_of_mem_canonicalFields {f : String × Json} (mem : f ∈ canonicalFields done fields) :
    f ∈ done ∨ ∃ g ∈ fields, f = canonicalField g := by
  induction fields generalizing done with
  | nil => exact .inl mem
  | cons g rest ih =>
    rcases ih mem with inserted | ⟨h, later, rfl⟩
    · rcases eq_or_mem_of_mem_insertField inserted with rfl | old
      · exact .inr ⟨g, List.mem_cons_self, rfl⟩
      · exact .inl old
    · exact .inr ⟨h, List.mem_cons_of_mem g later, rfl⟩

/-- Every field of the ordered form comes from a field. -/
theorem exists_of_mem_canonicalFields {f : String × Json} (mem : f ∈ canonicalFields [] fields) :
    ∃ g ∈ fields, f = canonicalField g :=
  (mem_of_mem_canonicalFields mem).resolve_left List.not_mem_nil

theorem canonicalFields_perm_append (distinct : (fields.map Prod.fst).Nodup)
    (apart : ∀ f ∈ fields, ∀ g ∈ done, g.1 ≠ f.1) :
    (canonicalFields done fields).Perm (done ++ fields.map canonicalField) := by
  induction fields generalizing done with
  | nil => simp [canonicalFields]
  | cons f rest ih =>
    obtain ⟨new, distinct⟩ := List.nodup_cons.1 distinct
    obtain ⟨first, others⟩ := List.forall_mem_cons.1 apart
    -- The field joins those in order and still shares no name with the rest, as names differ.
    have apart' : ∀ g ∈ rest, ∀ h ∈ insertField f.1 f.2.canonical done, h.1 ≠ g.1 := by
      intro g mem h inserted
      rcases eq_or_mem_of_mem_insertField inserted with rfl | old
      · exact fun same => new (List.mem_map.2 ⟨g, mem, same.symm⟩)
      · exact others g mem h old
    calc (canonicalFields done (f :: rest)).Perm
          (insertField f.1 f.2.canonical done ++ rest.map canonicalField) := ih distinct apart'
      List.Perm _ ((canonicalField f :: done) ++ rest.map canonicalField) :=
        (insertField_perm first).append_right _
      List.Perm _ (done ++ (f :: rest).map canonicalField) := List.perm_middle.symm

theorem canonicalFields_perm (distinct : (fields.map Prod.fst).Nodup) :
    (canonicalFields [] fields).Perm (fields.map canonicalField) :=
  canonicalFields_perm_append distinct (by simp)

/-! ### Whole values -/

theorem AreOrdered.nodup (ordered : AreOrdered fields) : (fields.map Prod.fst).Nodup :=
  List.pairwise_map.2 (ordered.imp fun {a b} lt same => by
    rw [same] at lt
    exact String.lt_irrefl _ lt)

/-- Two ways to list the same fields in order are one. -/
theorem AreOrdered.eq_of_perm {fields' : List (String × Json)} (ordered : AreOrdered fields)
    (ordered' : AreOrdered fields') (perm : fields.Perm fields') : fields = fields' :=
  perm.eq_of_pairwise (fun _ _ _ _ lt gt => absurd (String.lt_trans lt gt) (String.lt_irrefl _))
    ordered ordered'

theorem canonical_canonical (j : Json) : j.canonical.canonical = j.canonical := by
  induction j with
  | null | bool | number | string | unreadable => rfl
  | array elements ih =>
    simp only [canonical, canonicalElements_eq, List.map_map]
    exact congrArg _ (List.map_congr_left ih)
  | object fields ih =>
    have ordered : AreOrdered (canonicalFields [] fields) := areOrdered_canonicalFields .nil
    have stay : (canonicalFields [] fields).map canonicalField = canonicalFields [] fields := by
      refine (List.map_congr_left fun f mem => ?_).trans (List.map_id _)
      obtain ⟨g, old, rfl⟩ := exists_of_mem_canonicalFields mem
      exact congrArg (Prod.mk g.1) (ih g old)
    have perm := canonicalFields_perm ordered.nodup
    rw [stay] at perm
    exact congrArg object ((areOrdered_canonicalFields .nil).eq_of_perm ordered perm)

theorem FitsIn.canonical {allowed : Number → Prop} (fits : j.FitsIn allowed depth) :
    j.canonical.FitsIn allowed depth := by
  induction fits with
  | null => exact .null
  | bool value => exact .bool value
  | number allows => exact .number allows
  | string value => exact .string value
  | unreadable => exact .unreadable
  | array _ ih =>
    rw [Json.canonical, canonicalElements_eq]
    exact .array (List.forall_mem_map.2 ih)
  | object _ ih =>
    refine .object fun f mem => ?_
    obtain ⟨g, old, rfl⟩ := exists_of_mem_canonicalFields mem
    exact ih g old

theorem areReadableElements_iff {elements : List Json} :
    areReadableElements elements ↔ ∀ e ∈ elements, e.isReadable := by
  induction elements with
  | nil => simp [areReadableElements]
  | cons e rest ih => simp [areReadableElements, ih]

theorem areReadableFields_iff : areReadableFields fields ↔ ∀ f ∈ fields, f.2.isReadable := by
  induction fields with
  | nil => simp [areReadableFields]
  | cons f rest ih =>
    rw [areReadableFields, Bool.and_eq_true, ih, List.forall_mem_cons]

theorem isReadable_canonical (readable : j.isReadable) : j.canonical.isReadable := by
  induction j with
  | null | bool | number | string | unreadable => exact readable
  | array elements ih =>
    rw [canonical, canonicalElements_eq]
    exact areReadableElements_iff.2
      (List.forall_mem_map.2 fun e mem => ih e mem (areReadableElements_iff.1 readable e mem))
  | object fields ih =>
    refine areReadableFields_iff.2 fun f mem => ?_
    obtain ⟨g, old, rfl⟩ := exists_of_mem_canonicalFields mem
    exact ih g old (areReadableFields_iff.1 readable g old)

/-! ### Rearrangements -/

/-- Values are taken to values with the same content: objects with different names to objects with
the same fields in some order. -/
structure Rearranges (f : Json → Json) : Prop where
  null : f null = null
  bool (value : Bool) : f (bool value) = bool value
  number (value : Number) : f (number value) = number value
  string (value : String) : f (string value) = string value
  array (elements : List Json) : f (array elements) = array (elements.map f)
  object {fields : List (String × Json)} (distinct : (fields.map Prod.fst).Nodup) :
    ∃ fields', f (object fields) = object fields' ∧
      fields'.Perm (fields.map fun field => (field.1, f field.2))
  /-- Ordering comes to the same before and after. -/
  canonical (j : Json) : (f j).canonical = j.canonical
  isReadable {j : Json} (readable : j.isReadable) : (f j).isReadable

theorem rearranges_id : Rearranges id where
  null := rfl
  bool _ := rfl
  number _ := rfl
  string _ := rfl
  array _ := by simp
  object _ := ⟨_, rfl, by simp⟩
  canonical _ := rfl
  isReadable readable := readable

theorem rearranges_canonical : Rearranges canonical where
  null := rfl
  bool _ := rfl
  number _ := rfl
  string _ := rfl
  array elements := by rw [canonical, canonicalElements_eq]
  object distinct := ⟨_, rfl, canonicalFields_perm distinct⟩
  canonical := canonical_canonical
  isReadable := isReadable_canonical

end CaseRegistry.Json
