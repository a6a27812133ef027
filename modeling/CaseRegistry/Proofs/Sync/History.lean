import CaseRegistry.Proofs.Sync.Cycle

/-! Dispatching an operation again.

A history of the stores is any sequence of edits of cases, each some operations on a copy
that is saved if they go through, and of dispatched operations. Each of them leaves every
stored case in a later state (`find?_step`), so a case that bears a stamp for good bears
it ever after. An operation that was applied once is applied whenever it is dispatched
again, and nothing comes of it (`dispatch_again`). For an acknowledgement this takes that
the item had been added before it: an item that the ledger has not confirmed may be
removed. -/
namespace CaseRegistry

namespace Case

/-- A case comes to be another one by operations on it, those that fail included. -/
inductive Leads (c : Case) : Case → Prop where
  | refl : Leads c c
  | apply {c' : Case} (op : CaseOperation) : Leads c c' → Leads c ((Case.apply op).run c').2

/-- What the ledger has confirmed stays, whatever is done to the case. -/
theorem Leads.continues {c c' : Case} (h : c.Leads c') : c.Continues (¬·.IsDraft) c' := by
  induction h with
  | refl => exact .refl c
  | apply op _ ih => exact ih.trans_confirmed (apply_continues op _)

theorem Leads.trans {c c' c'' : Case} (h : c.Leads c') (h' : c'.Leads c'') : c.Leads c'' := by
  induction h' with
  | refl => exact h
  | apply op _ ih => exact .apply op ih

end Case

/-- What somebody does to a case: operations, chosen in any way. -/
structure LocalChange where
  change : Action Case ChangeSet
  leads : ∀ c : Case, c.Leads (change.run c).2

theorem Case.leads_performFrom (total : ChangeSet) (operations : List CaseOperation) (c : Case) :
    c.Leads ((performFrom total operations).run c).2 := by
  induction operations generalizing c total with
  | nil => exact .refl
  | cons op rest ih =>
    rw [performFrom, Action.run_bind]
    have first : c.Leads ((Case.apply op).run c).2 := .apply op .refl
    obtain ⟨_ | reply, after, ran⟩ :
        ∃ result after, (Case.apply op).run c = (result, after) := ⟨_, _, rfl⟩
    · rw [ran] at first ⊢
      exact first
    · rw [ran] at first ⊢
      exact first.trans (ih _ after)

/-- The change that consists of given operations, up to the first that fails. -/
def LocalChange.ofOperations (operations : List CaseOperation) : LocalChange where
  change := Case.perform operations
  leads := Case.leads_performFrom ∅ operations

/-- A step of a history: somebody edits a case, or a node dispatches an operation. -/
inductive HistoryStep where
  | edit (id : CaseId) (change : LocalChange)
  | dispatch (node : Identity) (op : LedgerOperation) (on : Timestamp)

namespace Memory

variable {m : Memory} {id : CaseId} {c : Case}

/-- The stores after a step, which may have failed. -/
def step (m : Memory) : HistoryStep → Memory
  | .edit id change => ((backend.mutate id change.change).run m).2
  | .dispatch node op on => ((backend.dispatch node op on).run m).2

/-- The stores after a history. -/
def after (m : Memory) (steps : List HistoryStep) : Memory := steps.foldl step m

theorem after_append (m : Memory) (steps later : List HistoryStep) :
    m.after (steps ++ later) = (m.after steps).after later :=
  List.foldl_append

/-! ### What a step does to a stored case -/

/-- A change that goes through leaves a later state under the identifier and no other case touched. -/
theorem find?_save_continues {r : Repository} {other : CaseId} {c after : Case} {changes : ChangeSet}
    (found : r.find? id = some c) (continues : c.Continues (¬·.IsDraft) after) {d : Case}
    (hd : r.find? other = some d) :
    ∃ d', (r.save after changes).find? other = some d' ∧ d.Continues (¬·.IsDraft) d' := by
  have hid : after.id = id := continues.id.trans (Repository.id_of_find? found)
  rw [Repository.find?_save]
  by_cases same : after.id = other
  · rw [if_pos same]
    obtain rfl : c = d := Option.some.inj (found.symm.trans ((hid.symm.trans same) ▸ hd))
    exact ⟨after, rfl, continues⟩
  · rw [if_neg same]
    exact ⟨d, hd, .refl d⟩

theorem find?_edit {other : CaseId} {change : LocalChange} (found : m.repository.find? id = some c) :
    ∃ c', ((backend.mutate other change.change).run m).2.repository.find? id = some c' ∧
      c.Continues (¬·.IsDraft) c' := by
  cases target : m.repository.find? other with
  | none =>
    refine ⟨c, ?_, .refl c⟩
    unfold Backend.mutate
    rw [Action.run_bind_of_error (run_getCase_unknown target)]
    exact found
  | some d =>
    obtain ⟨_ | changes, d', ran⟩ :
        ∃ result after, change.change.run d = (result, after) := ⟨_, _, rfl⟩
    · exact ⟨c, by rw [run_mutate_of_error target ran]; exact found, .refl c⟩
    · have leads := (change.leads d).continues
      rw [ran] at leads
      rw [run_mutate target ran]
      exact find?_save_continues target leads found

theorem find?_dispatch {node : Identity} {op : LedgerOperation} {on : Timestamp}
    (found : m.repository.find? id = some c) :
    ∃ c', ((backend.dispatch node op on).run m).2.repository.find? id = some c' ∧
      c.Continues (¬·.IsDraft) c' := by
  rw [run_dispatch]
  cases hr : m.repository.ruling node op on with
  | refuse e => exact ⟨c, found, .refl c⟩
  | pass reason => exact ⟨c, found, .refl c⟩
  | stamp target after changes =>
    obtain ⟨stamp, d, _, hd, _, ran⟩ := Repository.ruling_eq_stamp.mp hr
    exact find?_save_continues hd ((Case.stamp_ok ran).1.weaken fun _ _ => trivial) found

/-- Whatever is done, a stored case stays stored, in a later state. -/
theorem find?_step (step : HistoryStep) (found : m.repository.find? id = some c) :
    ∃ c', (m.step step).repository.find? id = some c' ∧ c.Continues (¬·.IsDraft) c' := by
  cases step with
  | edit other change => exact find?_edit found
  | dispatch node op on => exact find?_dispatch found

theorem find?_after (steps : List HistoryStep) (found : m.repository.find? id = some c) :
    ∃ c', (m.after steps).repository.find? id = some c' ∧ c.Continues (¬·.IsDraft) c' := by
  induction steps generalizing m c with
  | nil => exact ⟨c, found, .refl c⟩
  | cons step rest ih =>
    obtain ⟨c₁, found₁, continues⟩ := find?_step step found
    obtain ⟨c₂, found₂, continues'⟩ := ih found₁
    exact ⟨c₂, found₂, continues.trans_confirmed continues'⟩

/-! ### Applied operations -/

/-- A node dispatched an operation and stamped a case. -/
def Applies (m : Memory) (node : Identity) (op : LedgerOperation) (on : Timestamp) (id : CaseId) : Prop :=
  ((backend.dispatch node op on).run m).1 = .ok (.applied id)

/-- An operation that is applied has a stamp for a stored case of the node, which bears it then. -/
theorem Applies.stamped {node : Identity} {op : LedgerOperation} {on : Timestamp}
    (h : m.Applies node op on id) :
    ∃ stamp c c', op.stamp? = some (id, stamp) ∧ m.repository.find? id = some c ∧
      ((backend.dispatch node op on).run m).2.repository.find? id = some c' ∧
      c.Continues (fun _ => True) c' ∧ c'.owner = node ∧ c'.Bears stamp on := by
  unfold Applies at h
  rw [run_dispatch] at h ⊢
  cases hr : m.repository.ruling node op on with
  | refuse e =>
    rw [hr] at h
    cases h
  | pass reason =>
    rw [hr] at h
    cases h
  | stamp target after changes =>
    rw [hr] at h
    cases h
    obtain ⟨stamp, c, hs, found, mine, ran⟩ := Repository.ruling_eq_stamp.mp hr
    obtain ⟨continues, bears, _⟩ := Case.stamp_ok ran
    refine ⟨stamp, c, after, hs, found, ?_, continues, continues.owner.trans mine, bears⟩
    show (m.repository.save after changes).find? id = some after
    rw [Repository.find?_save, if_pos (continues.id.trans (Repository.id_of_find? found))]

/-- In a history an operation was applied that added an item to a case. -/
def HasAdded (m : Memory) (steps : List HistoryStep) (id : CaseId) (kind : ItemKind) (key : kind.Key) :
    Prop :=
  ∃ earlier later node op on fees, steps = earlier ++ .dispatch node op on :: later ∧
    op.stamp? = some (id, .itemAdded kind key fees) ∧ (m.after earlier).Applies node op on id

/-- An item that was added in a history is there and confirmed after it. -/
theorem HasAdded.hasItem {steps : List HistoryStep} {kind : ItemKind} {key : kind.Key}
    (h : m.HasAdded steps id kind key) {c : Case} (found : (m.after steps).repository.find? id = some c) :
    c.HasItem kind key (¬·.IsDraft) := by
  obtain ⟨earlier, later, node, op, on, fees, rfl, hs, applied⟩ := h
  obtain ⟨stamp, _, c₁, hs', _, found₁, _, _, bears⟩ := applied.stamped
  obtain ⟨_, rfl⟩ := Prod.mk.inj (Option.some.inj (hs.symm.trans hs'))
  obtain ⟨c₂, found₂, continues⟩ := find?_after later found₁
  rw [after_append] at found
  obtain rfl : c₂ = c := Option.some.inj (found₂.symm.trans found)
  exact continues.hasItem (fun continues => continues.not_isDraft) (fun _ hi => hi) bears.hasItem

theorem save_found {r : Repository} (found : r.find? id = some c) (changes : ChangeSet) :
    r.save c changes = { r with saves := r.saves ++ [(id, changes)] } := by
  have hid := Repository.id_of_find? found
  have placed : ∀ cases : List Case, cases.find? (·.id = id) = some c → Repository.place c cases = cases := by
    intro cases h
    induction cases with
    | nil => cases h
    | cons other rest ih =>
      by_cases same : other.id = id
      · obtain rfl : other = c := by simpa [same] using h
        simp [Repository.place]
      · have hrest : rest.find? (·.id = id) = some c := by simpa [same] using h
        simp [Repository.place, hid, same, ih hrest]
  unfold Repository.save
  rw [placed r.cases found, hid]

/-- An operation with a stamp that a case of the node bears is applied, and nothing comes of it. -/
theorem run_dispatch_of_bears {node : Identity} {op : LedgerOperation} {on : Timestamp}
    {stamp : ChainStamp} (hs : op.stamp? = some (id, stamp)) (found : m.repository.find? id = some c)
    (mine : c.owner = node) (bears : c.Bears stamp on) :
    (backend.dispatch node op on).run m =
      (.ok (.applied id),
        { m with repository := { m.repository with saves := m.repository.saves ++ [(id, ∅)] } }) := by
  have ruling : m.repository.ruling node op on = .stamp id c ∅ :=
    Repository.ruling_eq_stamp.mpr ⟨stamp, c, hs, found, mine, Case.stamp_of_bears bears⟩
  rw [run_dispatch, ruling, Ruling.settle, save_found found]

/-- An operation that was applied at some point of a history is applied again at any later point,
leaves all stored cases as they are, and is saved with an empty change set. An acknowledgement must
have come after the item was added. -/
theorem dispatch_again (m : Memory) (before later : List HistoryStep) (node : Identity)
    (op : LedgerOperation) (on : Timestamp) (id : CaseId)
    (applied : (m.after before).Applies node op on id)
    (ordered : ∀ kind key, op.stamp? = some (id, .itemAcknowledged kind key) →
      m.HasAdded before id kind key) :
    let now := m.after (before ++ .dispatch node op on :: later)
    (backend.dispatch node op on).run now =
      (.ok (.applied id),
        { now with repository := { now.repository with saves := now.repository.saves ++ [(id, ∅)] } }) := by
  intro now
  obtain ⟨stamp, c₀, c, hs, found₀, found, stamped, mine, bears⟩ := applied.stamped
  have firmly : c.BearsFirmly stamp on := by
    refine ⟨bears, fun kind key same => ?_⟩
    have added := (ordered kind key (same ▸ hs)).hasItem found₀
    exact stamped.hasItem (fun continues => continues.not_isDraft) (fun _ _ => trivial) added
  obtain ⟨c', found', continues⟩ := find?_after later found
  have hnow : now = ((backend.dispatch node op on).run (m.after before)).2.after later := by
    show m.after _ = _
    rw [after_append]
    rfl
  rw [← hnow] at found'
  exact run_dispatch_of_bears hs found' (continues.owner.trans mine) (firmly.continues continues).bears

end Memory
/-! ### An item of the sale that is added and acknowledged -/

namespace Sample

def adding : LedgerOperation :=
  (LedgerOperation.new "loc.add_metadata" (onSale [("name", .string "deed")])).withPartialFee 5

def acknowledging : LedgerOperation :=
  .new "loc.acknowledge_metadata" (onSale [("name", .string "deed")])

theorem stamp?_adding : adding.stamp? = some (saleId, .itemAdded .metadata "deed" ⟨5, none⟩) := by
  have named : adding.demand = .ok (.stamp .addMetadata saleId) := by decide +kernel
  have key : adding.textArg "name" = .ok "deed" := by decide +kernel
  refine LedgerOperation.stamp?_eq_some.mpr ⟨_, named, ?_⟩
  rw [ChainStamp.ofOperation, ChainStamp.itemAddedBy, ChainStamp.keyArg, key]
  rfl

theorem stamp?_acknowledging :
    acknowledging.stamp? = some (saleId, .itemAcknowledged .metadata "deed") := by
  have named : acknowledging.demand = .ok (.stamp .acknowledgeMetadata saleId) := by decide +kernel
  have key : acknowledging.textArg "name" = .ok "deed" := by decide +kernel
  refine LedgerOperation.stamp?_eq_some.mpr ⟨_, named, ?_⟩
  rw [ChainStamp.ofOperation, ChainStamp.itemAcknowledgedBy, ChainStamp.keyArg, key]
  rfl

/-- The owner drafts the item. -/
def drafting : HistoryStep :=
  .edit saleId (.ofOperations [.addItem .metadata node ⟨"deed", "2031"⟩])

/-- The owner closes the case, and tries to remove the item first. -/
def removing : HistoryStep :=
  .edit saleId (.ofOperations [.removeItem .metadata node "deed", .preClose])

end Sample

theorem Memory.acknowledge_again :
    let now := Sample.memory.after
      ([Sample.drafting, .dispatch Sample.node Sample.adding .epoch] ++
        .dispatch Sample.node Sample.acknowledging .epoch :: [Sample.removing])
    (backend.dispatch Sample.node Sample.acknowledging .epoch).run now =
      (.ok (.applied Sample.saleId),
        { now with
          repository := { now.repository with
            saves := now.repository.saves ++ [(Sample.saleId, ∅)] } }) := by
  refine dispatch_again Sample.memory _ _ Sample.node Sample.acknowledging .epoch Sample.saleId
    ?_ fun kind key same => ?_
  · show _ = _
    decide +kernel
  · obtain ⟨_, hs⟩ := Prod.mk.inj (Option.some.inj (Sample.stamp?_acknowledging.symm.trans same))
    cases hs
    exact ⟨[Sample.drafting], [], Sample.node, Sample.adding, .epoch, ⟨5, none⟩, rfl,
      Sample.stamp?_adding, by show _ = _; decide +kernel⟩

end CaseRegistry
