import CaseRegistry.Item.Collection
import CaseRegistry.Proofs.Item.Continuity
import Mathlib.Data.List.TakeWhile

/-! What a collection holds under a key after an operation.

For each operation on a collection, what it does when it succeeds (`modify_eq_ok`,
`add_eq_ok`, `remove_ok`), and what is found under a key afterwards (`get?_put`,
`get?_add`, `get?_remove_of_ne`). An item is lost only by its own removal, and only a
draft is removed (`isDraft_of_remove`). What several operations leave of the items is
said by `Keeps`. -/
namespace CaseRegistry.Collection

variable {kind : ItemKind} {c c' : Collection kind} {key other : kind.Key} {changes : ChangeSet}

theorem key_of_get? {item : Item kind} (h : c.get? key = some item) : item.key = key := by
  simpa using List.find?_some h

/-! ### Changing an item in its place -/

theorem require_eq_ok {item : Item kind} : c.require key = .ok item ↔ c.get? key = some item := by
  unfold require
  split
  · next found he => rw [he, Except.ok.injEq, Option.some.injEq]
  · next he => rw [he]; exact ⟨nofun, nofun⟩

theorem modify_eq_ok {f : Item kind → Except Error (Item kind × ChangeSet)} :
    c.modify key f = .ok (c', changes) ↔
      ∃ item new, c.get? key = some item ∧ f item = .ok (new, changes) ∧ c' = c.put key new := by
  simp only [modify, bind_eq_ok, pure_eq_ok, require_eq_ok, Prod.exists, Prod.mk.injEq]
  constructor
  · rintro ⟨item, found, new, _, done, rfl, rfl⟩
    exact ⟨item, new, found, done, rfl⟩
  · rintro ⟨item, new, found, done, rfl⟩
    exact ⟨item, found, new, changes, done, rfl, rfl⟩

theorem find?_putFirst (new : Item kind) (same : new.key = key) (items : List (Item kind)) :
    (putFirst key new items).find? (·.key = other) =
      if other = key then (items.find? (·.key = key)).map fun _ => new
      else items.find? (·.key = other) := by
  induction items with
  | nil => simp [putFirst]
  | cons item rest ih =>
    by_cases hk : item.key = key
    · by_cases ho : other = key
      · simp [putFirst, hk, ho, same]
      · simp [putFirst, hk, ho, same, Ne.symm ho]
    · by_cases hi : item.key = other
      · have ho : other ≠ key := hi ▸ hk
        simp [putFirst, hi, ho]
      · simp [putFirst, hk, hi, ih]

/-- Putting an item in its place changes what is found under its key, and under no other. -/
theorem get?_put (c : Collection kind) {new : Item kind} (same : new.key = key) :
    (c.put key new).get? other = if other = key then (c.get? key).map fun _ => new else c.get? other :=
  find?_putFirst new same c.items

theorem get?_put_self {item new : Item kind} (found : c.get? key = some item) (same : new.key = item.key) :
    (c.put key new).get? key = some new := by
  rw [get?_put c (same.trans (key_of_get? found)), if_pos rfl, found]
  rfl

theorem putFirst_find? {item : Item kind} {items : List (Item kind)}
    (h : items.find? (·.key = key) = some item) : putFirst key item items = items := by
  induction items with
  | nil => rfl
  | cons first rest ih =>
    by_cases hk : first.key = key
    · have same : first = item := by simpa [hk] using h
      rw [putFirst, if_pos hk, same]
    · have hr : rest.find? (·.key = key) = some item := by simpa [hk] using h
      simp [putFirst, hk, ih hr]

/-- Putting an item where it is changes nothing. -/
theorem put_get? {item : Item kind} (h : c.get? key = some item) : c.put key item = c := by
  unfold put
  rw [putFirst_find? h]

theorem putFirst_putFirst {new newer : Item kind} (same : new.key = key) (items : List (Item kind)) :
    putFirst key newer (putFirst key new items) = putFirst key newer items := by
  induction items with
  | nil => rfl
  | cons first rest ih =>
    by_cases hk : first.key = key
    · simp [putFirst, hk, same]
    · simp [putFirst, hk, ih]

/-- Of two items put in one place the second stays. -/
theorem put_put {new newer : Item kind} (same : new.key = key) :
    (c.put key new).put key newer = c.put key newer := by
  unfold put
  rw [putFirst_putFirst same]

/-! ### Adding -/

theorem add_eq_ok {submitter : Identity} {mode : SubmissionMode} {payload : kind.Payload} :
    c.add submitter mode payload = .ok (c', changes) ↔
      kind.keyOf payload ∉ c ∧ c' = ⟨c.items ++ [Item.new c.size submitter mode payload]⟩ ∧
        changes = .add (kind.ref (kind.keyOf payload)) := by
  simp only [add, ensure_bind_eq_ok, pure_eq_ok, Prod.mk.injEq]
  exact and_congr_right fun _ => and_congr eq_comm eq_comm

/-- What is there stays found when an item is added behind it. -/
theorem get?_add {item new : Item kind} (h : c.get? key = some item) :
    (Collection.mk (c.items ++ [new])).get? key = some item := by
  unfold get? at h ⊢
  rw [List.find?_append, h, Option.some_or]

/-! ### Removing -/

/-- A removal that succeeds takes out the first item with the key, which is a draft that the
actor handles, and numbers those behind it anew. -/
theorem remove_ok {actor : Identity} {ctx : CaseContext}
    (h : c.remove key actor ctx = .ok (c', changes)) :
    ∃ before item behind, c.items = before ++ item :: behind ∧ (∀ x ∈ before, x.key ≠ key) ∧
      item.key = key ∧ item.IsHandledBy actor ctx ∧ item.IsDraft ∧
      c' = ⟨before ++ renumber before.length behind⟩ ∧
      changes = { (∅ : ChangeSet) with
        removed := [item.ref], reindexed := movesOf before.length behind } := by
  have whole := List.takeWhile_append_dropWhile (p := (decide <| Item.key · ≠ key)) (l := c.items)
  have ahead : ∀ x ∈ c.items.takeWhile (·.key ≠ key), x.key ≠ key := fun x hx => by
    simpa using List.mem_takeWhile_imp hx
  have first := List.head?_dropWhile_not (decide <| Item.key · ≠ key) c.items
  unfold remove at h
  split at h
  · cases h
  · next item behind hd =>
    rw [hd] at whole first
    simp only [Item.ensureUnconfirmed, ensure_bind_eq_ok, pure_eq_ok, Prod.mk.injEq] at h
    obtain ⟨handled, draft, hc, hchanges⟩ := h
    exact ⟨_, item, behind, whole.symm, ahead, by simpa using first, handled, draft, hc.symm,
      hchanges.symm⟩

/-- Renumbering moves the items found to other places and keeps all else of them. -/
theorem find?_renumber {item : Item kind} {items : List (Item kind)} (n : Nat)
    (h : items.find? (·.key = key) = some item) :
    ∃ m, (renumber n items).find? (·.key = key) = some { item with index := m } := by
  induction items generalizing n with
  | nil => cases h
  | cons first rest ih =>
    have same : ({ first with index := n } : Item kind).key = first.key := rfl
    by_cases hk : first.key = key
    · have hf : first = item := by simpa [hk] using h
      exact ⟨n, by rw [renumber, List.find?_cons_of_pos (by simpa [same] using hk), hf]⟩
    · obtain ⟨m, hm⟩ := ih (n + 1) (by simpa [hk] using h)
      exact ⟨m, by rw [renumber, List.find?_cons_of_neg (by simpa [same] using hk), hm]⟩

/-- An item under another key outlives a removal, at most in another place. -/
theorem get?_remove_of_ne {actor : Identity} {ctx : CaseContext} {item : Item kind}
    (h : c.remove key actor ctx = .ok (c', changes)) (ne : other ≠ key)
    (found : c.get? other = some item) : ∃ m, c'.get? other = some { item with index := m } := by
  obtain ⟨before, removed, behind, hitems, _, hkey, _, _, rfl, _⟩ := remove_ok h
  unfold get? at found ⊢
  rw [hitems, List.find?_append, List.find?_cons_of_neg (by simpa [hkey] using ne.symm)] at found
  rw [List.find?_append]
  cases hb : before.find? (·.key = other) with
  | some x =>
    rw [hb, Option.some_or, Option.some.injEq] at found
    exact ⟨item.index, by rw [Option.some_or, found]⟩
  | none =>
    rw [hb, Option.none_or] at found
    simpa only [Option.none_or] using find?_renumber before.length found

/-- What a removal takes out was a draft. -/
theorem isDraft_of_remove {actor : Identity} {ctx : CaseContext} {item : Item kind}
    (h : c.remove key actor ctx = .ok (c', changes)) (found : c.get? key = some item) :
    item.IsDraft := by
  obtain ⟨before, removed, behind, hitems, ahead, hkey, _, draft, _, _⟩ := remove_ok h
  have hb : before.find? (·.key = key) = none :=
    List.find?_eq_none.mpr fun x hx => by simpa using ahead x hx
  unfold get? at found
  rw [hitems, List.find?_append, hb, Option.none_or,
    List.find?_cons_of_pos (by simpa using hkey), Option.some.injEq] at found
  exact found ▸ draft

/-! ### What stays -/

/-- Every item of which `kept` holds is found under its key in a later state. -/
def Keeps (kept : Item kind → Prop) (c later : Collection kind) : Prop :=
  ∀ key item, c.get? key = some item → kept item →
    ∃ after, later.get? key = some after ∧ item.Continues after

theorem Keeps.refl {kept : Item kind → Prop} (c : Collection kind) : c.Keeps kept c :=
  fun _ item found _ => ⟨item, found, .refl item⟩

end CaseRegistry.Collection
