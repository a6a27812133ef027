import CaseRegistry.Proofs.Ledger.Records
import CaseRegistry.Sync.Dispatch

/-! What dispatching one operation does to stores in memory.

An operation is refused, passed over, or stamps one case. Which of these it is depends on
the operation and on the case stored under the name it gives (`Repository.ruling`), and
nothing but that case changes (`run_dispatch`). A case is stamped exactly if the
operation names it, it belongs to the node, and the stamp goes through on it
(`ruling_eq_stamp`). -/
namespace CaseRegistry

/-- What an operation asks for, before any case is looked at. -/
inductive Demand where
  | pass (reason : SkipReason)
  /-- A case is to be known and stamped. -/
  | stamp (kind : OperationKind) (id : CaseId)
deriving DecidableEq

/-- What becomes of an operation. -/
inductive Ruling where
  | refuse (e : Error)
  | pass (reason : SkipReason)
  /-- The case `id` becomes `after`. -/
  | stamp (id : CaseId) (after : Case) (changes : ChangeSet)

namespace LedgerOperation

def demand (op : LedgerOperation) : Except Error Demand :=
  if op.failed then .ok (.pass .failedOnChain)
  else
    match OperationKind.classify op.kind with
    | .error e => .error e
    | .ok none => .ok (.pass .foreign)
    | .ok (some kind) =>
      if kind.targetPolicy = .untargeted then .ok (.pass .noMutation)
      else (op.caseIdArg "loc_id").map (.stamp kind)

/-- The case that an operation names and the stamp it has for it, if it succeeded on the ledger and
is about a case. -/
def stamp? (op : LedgerOperation) : Option (CaseId × ChainStamp) :=
  match op.demand with
  | .ok (.stamp kind id) =>
    match ChainStamp.ofOperation kind op with
    | .ok (some stamp) => some (id, stamp)
    | _ => none
  | _ => none

theorem stamp?_eq_some {op : LedgerOperation} {id : CaseId} {stamp : ChainStamp} :
    op.stamp? = some (id, stamp) ↔
      ∃ kind, op.demand = .ok (.stamp kind id) ∧ ChainStamp.ofOperation kind op = .ok (some stamp) := by
  unfold stamp?
  constructor
  · intro h
    split at h
    · next kind named hd =>
      split at h
      · next found ho =>
        obtain ⟨rfl, rfl⟩ := Prod.mk.inj (Option.some.inj h)
        exact ⟨kind, hd, ho⟩
      · cases h
    · cases h
  · rintro ⟨kind, hd, ho⟩
    rw [hd]
    simp only [ho]

end LedgerOperation

namespace Backend

variable {σ : Type} (b : Backend σ)

/-- Dispatches an operation of a kind to the case that it names. -/
def dispatchNamed (node : Identity) (kind : OperationKind) (op : LedgerOperation) (on : Timestamp)
    (id : CaseId) : Action σ DispatchResult := do
  match ← b.findCase id with
  | none =>
    if kind.targetPolicy = .tolerant then return .skipped .unknownTarget
    else Action.fail (.missingTarget op.kind id)
  | some c =>
    if c.owner = node then b.stampCase kind op on id
    else return .skipped .otherOwner

/-- Whatever the stores are, an operation is dispatched as it demands. -/
theorem run_dispatch (node : Identity) (op : LedgerOperation) (on : Timestamp) (s : σ) :
    (b.dispatch node op on).run s =
      match op.demand with
      | .error e => (.error e, s)
      | .ok (.pass reason) => (.ok (.skipped reason), s)
      | .ok (.stamp kind id) => (b.dispatchNamed node kind op on id).run s := by
  unfold dispatch LedgerOperation.demand
  by_cases failed : op.failed
  · rw [if_pos failed, if_pos failed]
    rfl
  · rw [if_neg failed, if_neg failed, Action.run_bind, Action.run_ofExcept]
    cases OperationKind.classify op.kind with
    | error e => rfl
    | ok found =>
      cases found with
      | none => rfl
      | some kind =>
        by_cases untargeted : kind.targetPolicy = .untargeted
        · simp only [Action.resume, if_pos untargeted]
          rfl
        · simp only [Action.resume, if_neg untargeted]
          unfold dispatchTargeted
          cases op.caseIdArg "loc_id" <;> rfl

end Backend

/-- What becomes of an operation of a kind that names a case which is stored. -/
def Case.ruling (c : Case) (node : Identity) (kind : OperationKind) (op : LedgerOperation)
    (on : Timestamp) (id : CaseId) : Ruling :=
  if c.owner = node then
    match ChainStamp.ofOperation kind op with
    | .error e => .refuse e
    | .ok none => .pass .noMutation
    | .ok (some stamp) =>
      match (stamp.apply on).run c with
      | (.ok changes, after) => .stamp id after changes
      | (.error e, _) => .refuse e
  else .pass .otherOwner

/-- What becomes of an operation of a kind, given what is stored under the name it gives. -/
def Ruling.onTarget (node : Identity) (kind : OperationKind) (op : LedgerOperation) (on : Timestamp)
    (id : CaseId) : Option Case → Ruling
  | some c => c.ruling node kind op on id
  | none =>
    if kind.targetPolicy = .tolerant then .pass .unknownTarget
    else .refuse (.missingTarget op.kind id)

/-- What becomes of an operation in a repository. -/
def Repository.ruling (r : Repository) (node : Identity) (op : LedgerOperation) (on : Timestamp) :
    Ruling :=
  match op.demand with
  | .error e => .refuse e
  | .ok (.pass reason) => .pass reason
  | .ok (.stamp kind id) => .onTarget node kind op on id (r.find? id)

/-- The answer to an operation and the stores after it. -/
def Ruling.settle (m : Memory) : Ruling → Except Error DispatchResult × Memory
  | .refuse e => (.error e, m)
  | .pass reason => (.ok (.skipped reason), m)
  | .stamp id after changes =>
    (.ok (.applied id), { m with repository := m.repository.save after changes })

namespace Memory

/-! ### Calls of the stores -/

theorem run_findCase (id : CaseId) (m : Memory) :
    (backend.findCase id).run m = (.ok (m.repository.find? id), m) := rfl

theorem run_getCase {id : CaseId} {c : Case} {m : Memory} (h : m.repository.find? id = some c) :
    (backend.getCase id).run m = (.ok c, m) := by
  unfold Backend.getCase
  rw [Action.run_bind_of_ok (run_findCase id m), h]
  rfl

theorem run_getCase_unknown {id : CaseId} {m : Memory} (h : m.repository.find? id = none) :
    (backend.getCase id).run m = (.error (.caseNotFound id), m) := by
  unfold Backend.getCase
  rw [Action.run_bind_of_ok (run_findCase id m), h]
  rfl

/-- A change that goes through is saved. -/
theorem run_mutate {id : CaseId} {c c' : Case} {changes : ChangeSet} {m : Memory}
    {change : Action Case ChangeSet} (h : m.repository.find? id = some c)
    (hc : change.run c = (.ok changes, c')) :
    (backend.mutate id change).run m =
      (.ok c', { m with repository := m.repository.save c' changes }) := by
  unfold Backend.mutate
  rw [Action.run_bind_of_ok (run_getCase h), hc]
  rfl

/-- A change that fails leaves the stores as they were. -/
theorem run_mutate_of_error {id : CaseId} {c c' : Case} {e : Error} {m : Memory}
    {change : Action Case ChangeSet} (h : m.repository.find? id = some c)
    (hc : change.run c = (.error e, c')) : (backend.mutate id change).run m = (.error e, m) := by
  unfold Backend.mutate
  rw [Action.run_bind_of_ok (run_getCase h), hc]
  rfl

/-! ### One operation -/

theorem run_stampCase {id : CaseId} {c : Case} {m : Memory} (h : m.repository.find? id = some c)
    (node : Identity) (mine : c.owner = node) (kind : OperationKind) (op : LedgerOperation)
    (on : Timestamp) :
    (backend.stampCase kind op on id).run m = (c.ruling node kind op on id).settle m := by
  unfold Backend.stampCase Case.ruling
  rw [if_pos mine, Action.run_bind, Action.run_ofExcept]
  cases ChainStamp.ofOperation kind op with
  | error e => rfl
  | ok found =>
    cases found with
    | none => rfl
    | some stamp =>
      show Action.run (backend.mutate id (stamp.apply on) >>= fun _ => pure (DispatchResult.applied id)) m = _
      dsimp only
      obtain ⟨_ | changes, c', ran⟩ :
          ∃ result after, (stamp.apply on).run c = (result, after) := ⟨_, _, rfl⟩
      · rw [Action.run_bind_of_error (run_mutate_of_error h ran)]
        simp only [ran]
        rfl
      · rw [Action.run_bind_of_ok (run_mutate h ran)]
        simp only [ran]
        rfl

theorem run_dispatchNamed (node : Identity) (kind : OperationKind) (op : LedgerOperation)
    (on : Timestamp) (id : CaseId) (m : Memory) :
    (backend.dispatchNamed node kind op on id).run m =
      (Ruling.onTarget node kind op on id (m.repository.find? id)).settle m := by
  unfold Backend.dispatchNamed
  rw [Action.run_bind_of_ok (run_findCase id m)]
  cases h : m.repository.find? id with
  | none =>
    simp only [Ruling.onTarget]
    split <;> rfl
  | some c =>
    simp only [Ruling.onTarget]
    by_cases mine : c.owner = node
    · rw [if_pos mine]
      exact run_stampCase h node mine kind op on
    · rw [if_neg mine, Case.ruling, if_neg mine]
      rfl

/-- Dispatching an operation does what is ruled on it, and nothing else. -/
theorem run_dispatch (node : Identity) (op : LedgerOperation) (on : Timestamp) (m : Memory) :
    (backend.dispatch node op on).run m = (m.repository.ruling node op on).settle m := by
  rw [Backend.run_dispatch, Repository.ruling]
  split
  · rfl
  · rfl
  · exact run_dispatchNamed node _ op on _ m

end Memory

/-! ### Who is stamped -/

namespace Repository

variable {r : Repository} {node : Identity} {op : LedgerOperation} {on : Timestamp}

theorem id_of_find? {id : CaseId} {c : Case} (h : r.find? id = some c) : c.id = id := by
  simpa using List.find?_some h

/-- An operation stamps a case exactly if it names it, the case is one of the node, and the stamp
goes through. -/
theorem ruling_eq_stamp {id : CaseId} {after : Case} {changes : ChangeSet} :
    r.ruling node op on = .stamp id after changes ↔
      ∃ stamp c, op.stamp? = some (id, stamp) ∧ r.find? id = some c ∧ c.owner = node ∧
        (stamp.apply on).run c = (.ok changes, after) := by
  constructor
  · intro h
    unfold ruling at h
    split at h
    · cases h
    · cases h
    · next kind named hd =>
      unfold Ruling.onTarget at h
      split at h
      · next c found =>
        unfold Case.ruling at h
        split at h
        · next mine =>
          split at h
          · cases h
          · cases h
          · next stamp ho =>
            split at h
            · next ran =>
              cases h
              exact ⟨stamp, c, LedgerOperation.stamp?_eq_some.mpr ⟨kind, hd, ho⟩, found, mine, ran⟩
            · cases h
        · cases h
      · split at h <;> cases h
  · rintro ⟨stamp, c, hs, found, mine, ran⟩
    obtain ⟨kind, hd, ho⟩ := LedgerOperation.stamp?_eq_some.mp hs
    unfold ruling
    simp only [hd, found, Ruling.onTarget, Case.ruling, if_pos mine, ho, ran]

/-- An operation that is passed over has no stamp for a case of the node. -/
theorem not_mine_of_ruling {reason : SkipReason} (h : r.ruling node op on = .pass reason)
    {id : CaseId} {stamp : ChainStamp} {c : Case} (hs : op.stamp? = some (id, stamp))
    (found : r.find? id = some c) : c.owner ≠ node := by
  intro mine
  obtain ⟨kind, hd, ho⟩ := LedgerOperation.stamp?_eq_some.mp hs
  unfold ruling at h
  simp only [hd, found, Ruling.onTarget, Case.ruling, if_pos mine, ho] at h
  split at h <;> cases h

end Repository
end CaseRegistry
