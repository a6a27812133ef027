import CaseRegistry.Proofs.Case.Acknowledgement
import CaseRegistry.Proofs.Case.Authority

/-! Who sees which items, and for how long.

The items that show to a viewer are listed in their order, so that in every case that can
come about their indexes increase (`Reachable.itemsVisibleTo_increasing`). Whom an item shows
to is settled by the parties of the case and by its submitter, which nothing changes, and by
whether the ledger has taken it in, which nothing but that stamp of the ledger changes
(`isDraft_step`). So what shows to a viewer shows to him as long as it is in the case, and
what does not is shown by that stamp alone (`visibility_lasts`). -/
namespace CaseRegistry

/-- The ledger takes an item in. -/
def CaseOperation.TakesIn (kind : ItemKind) (key : kind.Key) (op : CaseOperation) : Prop :=
  ∃ on, op = .stampItem kind (.added on) key

namespace Item

variable {kind : ItemKind} {c : Case} {op : CaseOperation} {item later : Item kind}

/-- Nothing but the ledger's taking it in makes a draft something else. -/
theorem Becomes.isDraft_iff (spared : ¬op.TakesIn kind item.key) (h : item.Becomes c op later) :
    later.IsDraft ↔ item.IsDraft := by
  cases h with
  | same | moved | restricted | delivered => rfl
  | performed _ performed => cases performed <;> rfl
  | stamped stamped =>
    cases stamped with
    | added => exact absurd ⟨_, rfl⟩ spared
    | same | fees | acknowledged => rfl

end Item

namespace Case

variable {c : Case} {op : CaseOperation} {ops : List CaseOperation} {kind : ItemKind} {key : kind.Key}
  {item later : Item kind} {viewer : Identity}

/-! ### The list of the visible items -/

theorem mem_itemsVisibleTo : item ∈ c.itemsVisibleTo kind viewer ↔
    item ∈ (c.collection kind).items ∧ item.IsVisibleTo viewer c.context := by
  simp [itemsVisibleTo, Collection.visibleTo]

theorem Reachable.itemsVisibleTo_increasing (h : c.Reachable) (kind : ItemKind) (viewer : Identity) :
    ((c.itemsVisibleTo kind viewer).map Item.index).Pairwise (· < ·) := by
  have whole : (c.collection kind).indexes.Pairwise (· < ·) := by
    rw [Collection.isContiguous_iff.mp (h.isListed kind).contiguous]
    exact List.pairwise_lt_range
  exact whole.sublist (List.filter_sublist.map Item.index)

/-! ### What becomes of visibility -/

/-- An item whose removal does not succeed stays, and is a draft afterwards if it was one and was not
taken in. -/
theorem isDraft_step (found : (c.collection kind).get? key = some item)
    (stays : ¬(op.Removes kind key ∧ c.Succeeds op)) :
    ∃ later, (((Case.apply op).run c).2.collection kind).get? key = some later ∧ item.Continues later ∧
      (later.IsDraft ↔ item.IsDraft ∧ ¬op.TakesIn kind key) := by
  by_cases taken : op.TakesIn kind key
  · obtain ⟨on, rfl⟩ := taken
    have confirmed : ¬(item.stamp (.added on)).1.IsDraft := by
      have bears : (item.stamp (.added on)).1.addedOn.isSome := item.bears_stamp (.added on)
      exact Option.isSome_iff_ne_none.mp bears
    exact ⟨_, get?_stampItem found (.added on), item.stamp_continues (.added on),
      fun draft => absurd draft confirmed, fun ⟨_, spared⟩ => absurd ⟨on, rfl⟩ spared⟩
  · simp only [taken, not_false_eq_true, and_true]
    rcases (apply_becomes op c).fate found with ⟨later, hlater, becomes⟩ | ⟨removal, _⟩
    · have spared : ¬op.TakesIn kind item.key := Collection.key_of_get? found ▸ taken
      exact ⟨later, hlater, becomes.continues, becomes.isDraft_iff spared⟩
    · rw [apply_of_not_succeeds fun success => stays ⟨removal, success⟩]
      exact ⟨item, found, .refl item, Iff.rfl⟩

theorem isDraft_after (found : (c.collection kind).get? key = some item)
    (present : c.Spares (·.Removes kind key) ops) :
    ∃ later, ((c.after ops).collection kind).get? key = some later ∧ item.Continues later ∧
      (later.IsDraft ↔ item.IsDraft ∧ ∀ op ∈ ops, ¬op.TakesIn kind key) := by
  induction ops generalizing c item with
  | nil => exact ⟨item, found, .refl item, by simp⟩
  | cons op rest ih =>
    obtain ⟨next, hnext, continues, draft⟩ := isDraft_step found present.1
    obtain ⟨later, hlater, onward, draftLater⟩ := ih hnext present.2
    refine ⟨later, hlater, continues.trans onward, ?_⟩
    rw [draftLater, draft, List.forall_mem_cons, and_assoc]

/-- A later state of an item shows to a viewer if the item did so before or is a draft no more. -/
theorem isVisibleTo_after (continues : item.Continues later) (ops : List CaseOperation) :
    later.IsVisibleTo viewer (c.after ops).context ↔
      item.IsVisibleTo viewer c.context ∨ ¬later.IsDraft := by
  have parties := c.continues_after ops
  have owner : (c.after ops).context.owner = c.context.owner := parties.owner
  have requester : (c.after ops).context.requester = c.context.requester := by
    show (c.after ops).requesterAddress = c.requesterAddress
    unfold requesterAddress
    rw [parties.requester]
  have confirmed : ¬item.IsDraft → ¬later.IsDraft := continues.not_isDraft
  unfold Item.IsVisibleTo
  rw [owner, requester, continues.submitter]
  tauto

/-- To a viewer show the items of a kind that the ledger has taken in, those that he submitted, all of
them if he owns the case, and those that the owner submitted if his is the address of the requester;
they are listed by increasing index. Whatever is done, an item that is not removed shows to him
afterwards if it did before or the ledger has taken it in meanwhile, and not otherwise. -/
theorem visibility_lasts (h : c.Reachable) (kind : ItemKind) (viewer : Identity) :
    (∀ item, item ∈ c.itemsVisibleTo kind viewer ↔ item ∈ (c.collection kind).items ∧
      (item.addedOn.isSome ∨ item.submitter = viewer ∨ viewer = c.owner ∨
        (c.requester = some (.address viewer) ∧ item.submitter = c.owner))) ∧
    ((c.itemsVisibleTo kind viewer).map Item.index).Pairwise (· < ·) ∧
    ∀ item ∈ (c.collection kind).items, ∀ ops, c.Spares (·.Removes kind item.key) ops →
      ∃ later ∈ ((c.after ops).collection kind).items, item.Continues later ∧
        (later ∈ (c.after ops).itemsVisibleTo kind viewer ↔
          item ∈ c.itemsVisibleTo kind viewer ∨ ∃ op ∈ ops, op.TakesIn kind item.key) := by
  refine ⟨fun item => ?_, h.itemsVisibleTo_increasing kind viewer, fun item mem ops present => ?_⟩
  · rw [mem_itemsVisibleTo, ← requesterAddress_eq_some, Option.isSome_iff_ne_none, eq_comm (b := viewer),
      or_left_comm (b := viewer = c.owner)]
    rfl
  · have found := (h.isListed kind).mem_iff.mp mem
    obtain ⟨later, hlater, continues, draft⟩ := isDraft_after found present
    have memLater := Collection.mem_of_get? hlater
    refine ⟨later, memLater, continues, ?_⟩
    rw [mem_itemsVisibleTo, mem_itemsVisibleTo, isVisibleTo_after continues ops, draft]
    have shown : ¬item.IsDraft → item.IsVisibleTo viewer c.context := .inl
    simp only [memLater, mem, true_and, not_and_or, not_forall, not_not, exists_prop, ← or_assoc,
      or_iff_left_of_imp shown]

end Case

/-! ### A plan that the heir comes to see -/

namespace Sample

/-- The surveyor leaves, the letter is taken out, the ledger takes the plan in, and the estate is void. -/
def estateWoundUp : List CaseOperation :=
  [.removeDelegate ⟨"notary"⟩ ⟨"surveyor"⟩, .removeItem .metadata ⟨"heir"⟩ "letter",
    .stampItem .metadata (.added .epoch) "plan", .makeVoid .epoch]

end Sample

/-- The heir does not see the surveyor's plan before the ledger has taken it in, and goes on seeing the
inventory. -/
theorem Case.visible_plan :
    ∃ made, Case.openNew Sample.estate .epoch = .ok made ∧
      let c := made.after Sample.estateHistory
      let last := c.after Sample.estateWoundUp
      c.Reachable ∧
        (c.itemsVisibleTo .metadata ⟨"heir"⟩).map Item.key = ["letter", "inventory"] ∧
        (last.itemsVisibleTo .metadata ⟨"heir"⟩).map Item.key = ["plan", "inventory"] ∧
        ∀ item ∈ (c.collection .metadata).items, item.key ≠ "letter" →
          ∃ later ∈ last.itemsVisibleTo .metadata ⟨"heir"⟩, item.Continues later := by
  refine ⟨_, rfl, ?_⟩
  intro c last
  have reachable : c.Reachable :=
    (@Case.Reachable.openNew Sample.estate .epoch _ rfl).after Sample.estateHistory
  obtain ⟨_, _, lasts⟩ := Case.visibility_lasts reachable .metadata ⟨"heir"⟩
  refine ⟨reachable, by decide +kernel +zetaReduce, by decide +kernel +zetaReduce, fun item mem ne => ?_⟩
  have present : c.Spares (·.Removes .metadata item.key) Sample.estateWoundUp :=
    Case.spares_of_forall (by simp [Sample.estateWoundUp, CaseOperation.Removes, ne.symm])
  have shown : ∀ item ∈ (c.collection .metadata).items,
      item ∈ c.itemsVisibleTo .metadata ⟨"heir"⟩ ∨ item.key = "letter" ∨ item.key = "plan" := by
    decide +kernel +zetaReduce
  obtain ⟨later, _, continues, visible⟩ := lasts item mem Sample.estateWoundUp present
  refine ⟨later, visible.mpr ((shown item mem).imp_right fun other => ?_), continues⟩
  exact ⟨.stampItem .metadata (.added .epoch) "plan", by simp [Sample.estateWoundUp], .epoch,
    by rw [other.resolve_left ne]⟩

end CaseRegistry
