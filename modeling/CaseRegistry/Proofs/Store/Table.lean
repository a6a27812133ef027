import Mathlib.Data.List.Induction
import CaseRegistry.Proofs.Format.Following

/-! The repository as a table and a list.

Held for look-ups, the repository is two structures and a log: a table from identifiers to
cases, the identifiers in the order in which they first came, and the change sets of the
saves. `CaseTable` is that. Whatever is written to it, in whatever order, the list has each
key of the table once, and the whole is the `Repository` to which the same was written:
each case is the one last written under its identifier, and stands where that first came
(`kept_after`). -/
namespace CaseRegistry

/-- What is written to a repository. -/
inductive Write where
  /-- A case is put in with no save noted. -/
  | insert (c : Case)
  | save (c : Case) (changes : ChangeSet)

namespace Write

def case : Write → Case
  | insert c => c
  | save c _ => c

/-- The save that is noted. -/
def saved? : Write → Option (CaseId × ChangeSet)
  | insert _ => none
  | save c changes => some (c.id, changes)

/-- The identifiers that were written under, in the order in which they first were. -/
def ids (writes : List Write) : List CaseId := (writes.map (·.case.id)).eraseDups

/-- The case that was last written under an identifier. -/
def last? (writes : List Write) (id : CaseId) : Option Case :=
  ((writes.map case).filter (·.id = id)).getLast?

variable {writes : List Write} {w : Write} {id : CaseId}

theorem mem_ids : id ∈ ids writes ↔ ∃ w ∈ writes, w.case.id = id := by
  unfold ids
  rw [List.mem_eraseDups, List.mem_map]

/-- An identifier that is written under for the first time comes last. -/
theorem ids_append (writes : List Write) (w : Write) :
    ids (writes ++ [w]) =
      if w.case.id ∈ ids writes then ids writes else ids writes ++ [w.case.id] := by
  have last (before : List CaseId) (id : CaseId) : (before ++ [id]).eraseDups =
      if id ∈ before.eraseDups then before.eraseDups else before.eraseDups ++ [id] := by
    rw [List.eraseDups_append]
    by_cases known : id ∈ before <;> simp [List.removeAll, List.eraseDups_cons, known]
  rw [ids, List.map_append]
  exact last _ w.case.id

theorem nodup_ids (writes : List Write) : (ids writes).Nodup := by
  induction writes using List.reverseRecOn with
  | nil => exact .nil
  | append_singleton writes w ih =>
    rw [ids_append]
    split
    · exact ih
    · next new => exact List.concat_eq_append ▸ .concat new ih

theorem last?_append (writes : List Write) (w : Write) (id : CaseId) :
    last? (writes ++ [w]) id = if w.case.id = id then some w.case else last? writes id := by
  unfold last?
  rw [List.map_append, List.filter_append]
  by_cases same : w.case.id = id
  · simp [same]
  · simp [same]

theorem last?_eq_none_iff : last? writes id = none ↔ id ∉ ids writes := by
  rw [mem_ids]
  simp [last?]

end Write

namespace Repository

variable {r : Repository}

def write (r : Repository) : Write → Repository
  | .insert c => r.insert c
  | .save c changes => r.save c changes

def after (r : Repository) (writes : List Write) : Repository := writes.foldl write r

theorem after_append (r : Repository) (writes : List Write) (w : Write) :
    r.after (writes ++ [w]) = (r.after writes).write w := by
  simp [after]

theorem cases_write (r : Repository) (w : Write) : (r.write w).cases = place w.case r.cases := by
  cases w <;> rfl

theorem ids_write (r : Repository) (w : Write) :
    (r.write w).ids = if w.case.id ∈ r.ids then r.ids else r.ids ++ [w.case.id] := by
  have cases : (r.write w).ids = (place w.case r.cases).map Case.id :=
    congrArg (List.map Case.id) (cases_write r w)
  rw [cases]
  split
  · next known => exact ids_place known
  · next unknown => rw [place_of_unknown unknown, List.map_append]; rfl

theorem find?_write (r : Repository) (w : Write) (id : CaseId) :
    (r.write w).find? id = if w.case.id = id then some w.case else r.find? id := by
  cases w with
  | insert c => exact find?_insert r c id
  | save c changes => exact find?_save r c changes id

theorem saves_write (r : Repository) (w : Write) :
    (r.write w).saves = r.saves ++ w.saved?.toList := by
  cases w with
  | insert c => exact (List.append_nil r.saves).symm
  | save c changes => rfl

theorem ids_after (writes : List Write) : (empty.after writes).ids = Write.ids writes := by
  induction writes using List.reverseRecOn with
  | nil => rfl
  | append_singleton writes w ih => rw [after_append, ids_write, ih, Write.ids_append]

theorem find?_after (writes : List Write) (id : CaseId) :
    (empty.after writes).find? id = Write.last? writes id := by
  induction writes using List.reverseRecOn with
  | nil => rfl
  | append_singleton writes w ih => rw [after_append, find?_write, ih, Write.last?_append]

theorem saves_after (writes : List Write) :
    (empty.after writes).saves = writes.filterMap Write.saved? := by
  induction writes using List.reverseRecOn with
  | nil => rfl
  | append_singleton writes w ih =>
    rw [after_append, saves_write, ih, List.filterMap_append]
    cases w <;> rfl

/-- With one case for each identifier, look-ups give the listing back. -/
theorem filterMap_find?_ids (distinct : r.ids.Nodup) : r.ids.filterMap r.find? = r.cases := by
  rw [ids, List.filterMap_map]
  have own : ∀ c ∈ r.cases, (r.find? ∘ Case.id) c = some c := fun c mem => find?_of_mem distinct mem
  rw [List.filterMap_congr own, List.filterMap_some]

theorem nodup_ids_after (writes : List Write) : (empty.after writes).ids.Nodup :=
  ids_after writes ▸ Write.nodup_ids writes

theorem cases_after (writes : List Write) :
    (empty.after writes).cases = (Write.ids writes).filterMap (Write.last? writes) := by
  rw [← filterMap_find?_ids (nodup_ids_after writes), ids_after]
  exact List.filterMap_congr fun id _ => find?_after writes id

end Repository

instance : Hashable CaseId := ⟨fun id => hash id.bytes.toList⟩

/-- The repository, held for look-ups. -/
structure CaseTable where
  cases : Std.HashMap CaseId Case
  /-- The identifiers, for listing. -/
  order : List CaseId
  saves : List (CaseId × ChangeSet)

namespace CaseTable

variable {t : CaseTable}

def empty : CaseTable := ⟨∅, [], []⟩

def insert (t : CaseTable) (c : Case) : CaseTable :=
  { t with
    cases := t.cases.insert c.id c
    order := if c.id ∈ t.cases then t.order else t.order ++ [c.id] }

def save (t : CaseTable) (c : Case) (changes : ChangeSet) : CaseTable :=
  { t.insert c with saves := t.saves ++ [(c.id, changes)] }

def find? (t : CaseTable) (id : CaseId) : Option Case := t.cases[id]?

def list (t : CaseTable) (filter : CaseFilter) : List Case :=
  (t.order.filterMap t.find?).filter fun c => filter.Matches c

def size (t : CaseTable) : Nat := t.cases.size

def write (t : CaseTable) : Write → CaseTable
  | .insert c => t.insert c
  | .save c changes => t.save c changes

def after (t : CaseTable) (writes : List Write) : CaseTable := writes.foldl write t

theorem after_append (t : CaseTable) (writes : List Write) (w : Write) :
    t.after (writes ++ [w]) = (t.after writes).write w := by
  simp [after]

theorem cases_write (t : CaseTable) (w : Write) :
    (t.write w).cases = t.cases.insert w.case.id w.case := by
  cases w <;> rfl

theorem order_write (t : CaseTable) (w : Write) :
    (t.write w).order = if w.case.id ∈ t.cases then t.order else t.order ++ [w.case.id] := by
  cases w <;> rfl

theorem find?_write (t : CaseTable) (w : Write) (id : CaseId) :
    (t.write w).find? id = if w.case.id = id then some w.case else t.find? id := by
  unfold find?
  rw [cases_write, Std.HashMap.getElem?_insert]
  simp only [beq_iff_eq]

theorem saves_write (t : CaseTable) (w : Write) :
    (t.write w).saves = t.saves ++ w.saved?.toList := by
  cases w with
  | insert c => exact (List.append_nil t.saves).symm
  | save c changes => rfl

/-- The list has the keys of the table, each of them once. -/
structure InStep (t : CaseTable) : Prop where
  keys : ∀ id, id ∈ t.order ↔ id ∈ t.cases
  once : t.order.Nodup
  size : t.cases.size = t.order.length

theorem inStep_empty : empty.InStep :=
  ⟨fun _ => iff_of_false List.not_mem_nil Std.HashMap.not_mem_empty, .nil, Std.HashMap.size_empty⟩

theorem InStep.write (h : t.InStep) (w : Write) : (t.write w).InStep where
  keys id := by
    rw [cases_write, order_write, Std.HashMap.mem_insert, beq_iff_eq]
    split
    · next known =>
      rw [h.keys]
      exact ⟨.inr, fun either => either.elim (fun same => same ▸ known) fun old => old⟩
    · rw [List.mem_append, List.mem_singleton, h.keys, or_comm, eq_comm]
  once := by
    rw [order_write]
    split
    · exact h.once
    · next new => exact List.concat_eq_append ▸ .concat (mt (h.keys _).mp new) h.once
  size := by
    rw [cases_write, order_write, Std.HashMap.size_insert, h.size]
    split
    · rfl
    · rw [List.length_append, List.length_singleton]

theorem inStep_after (writes : List Write) : (empty.after writes).InStep := by
  induction writes using List.reverseRecOn with
  | nil => exact inStep_empty
  | append_singleton writes w ih => exact after_append empty writes w ▸ ih.write w

theorem order_after (writes : List Write) : (empty.after writes).order = Write.ids writes := by
  induction writes using List.reverseRecOn with
  | nil => rfl
  | append_singleton writes w ih =>
    rw [after_append, order_write, Write.ids_append, ← ih]
    exact if_congr ((inStep_after writes).keys _).symm rfl rfl

theorem find?_after (writes : List Write) (id : CaseId) :
    (empty.after writes).find? id = Write.last? writes id := by
  induction writes using List.reverseRecOn with
  | nil => exact Std.HashMap.getElem?_empty
  | append_singleton writes w ih => rw [after_append, find?_write, ih, Write.last?_append]

theorem saves_after (writes : List Write) :
    (empty.after writes).saves = (Repository.empty.after writes).saves := by
  induction writes using List.reverseRecOn with
  | nil => rfl
  | append_singleton writes w ih =>
    rw [after_append, saves_write, ih, Repository.after_append, Repository.saves_write]

/-- What the table holds, as one list. -/
def toRepository (t : CaseTable) : Repository := ⟨t.order.filterMap t.find?, t.saves⟩

/-- Both repositories hold the same after the same writes. -/
theorem toRepository_after (writes : List Write) :
    (empty.after writes).toRepository = Repository.empty.after writes := by
  have found : (empty.after writes).find? = Write.last? writes := funext (find?_after writes)
  rw [toRepository, order_after, found, saves_after, ← Repository.cases_after]

/-- What holds of a table and of a memory whose repository was written to in the same way. -/
structure Kept (writes : List Write) (t : CaseTable) (m : Memory) : Prop where
  /-- The list has each key of the table once and nothing else, in the order of first writes. -/
  order : t.order = Write.ids writes
  once : t.order.Nodup
  keys : ∀ id, id ∈ t.order ↔ id ∈ t.cases
  same : t.toRepository = m.repository
  /-- A look-up gives what was last written under the identifier. -/
  found : ∀ id, t.find? id = Write.last? writes id ∧ m.repository.find? id = Write.last? writes id ∧
    (Memory.backend.findCase id).run m = (.ok (Write.last? writes id), m)
  /-- A listing is of the cases that match, as last written, in the order of first writes. -/
  listed : ∀ filter,
    let listing := ((Write.ids writes).filterMap (Write.last? writes)).filter fun c => filter.Matches c
    t.list filter = listing ∧ (Memory.backend.listCases filter).run m = (.ok listing, m) ∧
      (listing.map Case.id).Nodup
  size : t.size = (Write.ids writes).length ∧ m.repository.size = (Write.ids writes).length
  saves : t.saves = writes.filterMap Write.saved? ∧ m.repository.saves = writes.filterMap Write.saved?
  /-- No case is made under an identifier that was written under. -/
  taken : ∀ c, c.id ∈ Write.ids writes →
    (Memory.backend.createCase c).run m = (.error (.invalidCase (.taken c.id)), m)

end CaseTable

namespace Memory

variable {m : Memory}

theorem createCase_of_known {c : Case} (known : m.repository.find? c.id ≠ none) :
    (backend.createCase c).run m = (.error (.invalidCase (.taken c.id)), m) := by
  unfold Backend.createCase
  rw [Action.run_bind_of_ok (run_findCase c.id m), ensure, if_neg known]
  rfl

end Memory

/-- Whatever is written, and however first writes, writes over others and saves come after each other,
table and list stay in step, and are the repository to which the same was written. -/
theorem CaseTable.kept_after (writes : List Write) (m : Memory) :
    Kept writes (empty.after writes) { m with repository := Repository.empty.after writes } := by
  have inStep := inStep_after writes
  have found : (empty.after writes).find? = Write.last? writes := funext (find?_after writes)
  have order := order_after writes
  exact {
    order
    same := toRepository_after writes
    once := inStep.once
    keys := inStep.keys
    found := fun id => ⟨find?_after writes id, Repository.find?_after writes id, by
      rw [Memory.run_findCase, Repository.find?_after]⟩
    listed := fun filter => by
      refine ⟨by rw [list, order, found], ?_⟩
      rw [← Repository.cases_after]
      exact ⟨rfl, (Repository.nodup_ids_after writes).sublist (List.filter_sublist.map Case.id)⟩
    size := ⟨inStep.size.trans (congrArg List.length order), by
      rw [Repository.size, ← Repository.ids_after, Repository.ids, List.length_map]⟩
    saves := ⟨(saves_after writes).trans (Repository.saves_after writes), Repository.saves_after writes⟩
    taken := fun c known => Memory.createCase_of_known <| by
      rw [Repository.find?_after]
      exact mt Write.last?_eq_none_iff.mp (not_not_intro known) }

end CaseRegistry
