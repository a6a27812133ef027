import CaseRegistry.Proofs.Case.FourEyes
import CaseRegistry.Proofs.Case.Runs
import CaseRegistry.Proofs.Ledger.Records

/-! How long an acknowledgement of the ledger lasts.

The ledger may acknowledge an item before it has taken the item in. Until then somebody may
still remove the item or take the acknowledgement back (`acknowledgement_undone`), since
either asks only that the item is a draft. Whatever else is done, the item stays acknowledged
as it was; and once the ledger has taken it in nobody can undo it (`acknowledgement_lasts`). -/
namespace CaseRegistry

namespace Item

variable {kind : ItemKind} {c : Case} {op : CaseOperation} {item later : Item kind}

theorem stamp_acknowledged_of_fresh (fresh : item.acknowledgedOn = none) (on : Timestamp) :
    (item.stamp (.acknowledged on)).1 = { item with acknowledgedOn := some on, status := .acknowledged } := by
  have stamped := item.stamped_stamp (.acknowledged on)
  generalize (item.stamp (.acknowledged on)).1 = later at stamped ⊢
  cases stamped with
  | same again => simp [Bears, fresh] at again
  | acknowledged => rfl

/-- An acknowledged item stays so, if it is not a draft whose confirmation is taken back. -/
theorem Becomes.acknowledged (h : item.Becomes c op later)
    (kept : op.TakesBack kind item.key → ¬item.IsDraft) (standing : item.status = .acknowledged) :
    later.status = .acknowledged := by
  cases h with
  | same | moved | restricted | delivered => exact standing
  | @performed _ _ _ _ actor _ performed =>
    cases performed with
    | requestReview _ _ _ before => simp [standing] at before
    | accept _ pending | reject _ pending => simp [standing] at pending
    | prePublishOrAcknowledge _ _ confirmable =>
      have cleared := confirmable.cleared
      simp [standing] at cleared
    | preAcknowledge => rfl
    | cancelPrePublishOrAcknowledge _ _ draft => exact absurd draft (kept ⟨actor, .inl rfl⟩)
    | cancelPreAcknowledge _ _ draft => exact absurd draft (kept ⟨actor, .inr rfl⟩)
  | stamped stamped =>
    cases stamped with
    | added => simp [statusOnceAdded, standing]
    | acknowledged => rfl
    | _ => exact standing

end Item

namespace Case

variable {c : Case} {kind : ItemKind} {key : kind.Key} {item : Item kind}

theorem get?_stampItem (found : (c.collection kind).get? key = some item) (stamp : ItemStamp) :
    ((c.after [.stampItem kind stamp key]).collection kind).get? key = some (item.stamp stamp).1 := by
  have done : c.stampItem kind stamp key =
      .ok (c.withItems kind ((c.collection kind).put key (item.stamp stamp).1), (item.stamp stamp).2) :=
    stampItem_eq_ok.mpr ⟨item, found, rfl, rfl⟩
  have next : c.after [.stampItem kind stamp key] = _ := snd_withChanges done
  rw [next, collection_withItems]
  exact Collection.get?_put_self found (item.stamp_continues stamp).key

/-- What the ledger has taken in nobody succeeds in removing. -/
theorem spares_removal (found : (c.collection kind).get? key = some item) (confirmed : ¬item.IsDraft)
    (ops : List CaseOperation) : c.Spares (·.Removes kind key) ops := by
  induction ops generalizing c item with
  | nil => trivial
  | cons op rest ih =>
    constructor
    · rintro ⟨⟨actor, rfl⟩, success⟩
      exact confirmed (isDraft_of_succeeds success found)
    · obtain ⟨later, hlater, becomes⟩ := ((apply_becomes op c).fate found).resolve_right (confirmed ·.2)
      exact ih hlater (becomes.continues.not_isDraft confirmed)

/-- Once the ledger has acknowledged an item it stays so, at the time that was written, as long as the
item is not removed, and its status tells so as long as its confirmation is not taken back. Once the
ledger has taken the item in as well, it stays so whatever is done. -/
theorem acknowledgement_lasts (found : (c.collection kind).get? key = some item)
    (fresh : item.acknowledgedOn = none) (on : Timestamp) (ops : List CaseOperation) :
    let stamped := c.after [.stampItem kind (.acknowledged on) key]
    let last := stamped.after ops
    stamped.Spares (·.Removes kind key) ops →
      ∃ later, (last.collection kind).get? key = some later ∧ item.Continues later ∧
        later.acknowledgedOn = some on ∧
        (stamped.Spares (·.TakesBack kind key) ops → later.status = .acknowledged) ∧
        (¬later.IsDraft → ∀ more, ∃ final, ((last.after more).collection kind).get? key = some final ∧
          later.Continues final ∧ final.acknowledgedOn = some on ∧
          (later.status = .acknowledged → final.status = .acknowledged)) := by
  intro stamped last present
  have start : (stamped.collection kind).get? key = some (item.stamp (.acknowledged on)).1 :=
    get?_stampItem found (.acknowledged on)
  have continues := item.stamp_continues (.acknowledged on)
  rw [Item.stamp_acknowledged_of_fresh fresh] at start continues
  obtain ⟨later, hlater, stays, written⟩ :=
    present.fate (P := fun later => item.Continues later ∧ later.acknowledgedOn = some on)
      (fun _ removes => removes)
      (fun _ _ becomes holds =>
        ⟨holds.1.trans becomes.continues, becomes.continues.acknowledgedOn on holds.2⟩)
      start ⟨continues, rfl⟩
  refine ⟨later, hlater, stays, written, fun kept => ?_, fun confirmed more => ?_⟩
  · -- The status is not the item's own to keep: taking the confirmation back would rewrite it.
    obtain ⟨other, hother, standing⟩ := (present.or kept).fate (P := (·.status = .acknowledged))
      (fun _ removes => .inl removes)
      (fun spared same becomes => becomes.acknowledged fun back => absurd (.inr (same ▸ back)) spared)
      start rfl
    exact Option.some.inj (hother.symm.trans hlater) ▸ standing
  · -- Nothing is asked of what follows: on what is no draft both removing and taking back fail.
    obtain ⟨final, hfinal, continues, standing⟩ := (spares_removal hlater confirmed more).fate
      (P := fun final => later.Continues final ∧ (later.status = .acknowledged → final.status = .acknowledged))
      (fun _ removes => removes)
      (fun _ _ becomes holds => ⟨holds.1.trans becomes.continues, fun before =>
        becomes.acknowledged (fun _ => holds.1.not_isDraft confirmed) (holds.2 before)⟩)
      hlater ⟨.refl later, fun before => before⟩
    exact ⟨final, hfinal, continues, continues.acknowledgedOn on written, standing⟩

end Case

/-! ### An inventory that the ledger acknowledges first -/

namespace Sample

/-- The heir's inventory, which nobody reviewed. -/
def inventoryAdded : List CaseOperation := [.addItem .metadata ⟨"heir"⟩ ⟨"inventory", "a desk"⟩]

def acknowledgesInventory : CaseOperation := .stampItem .metadata (.acknowledged .epoch) "inventory"

/-- The ledger takes the inventory in. -/
def takesInventory : CaseOperation := .stampItem .metadata (.added .epoch) "inventory"

def removesInventory : CaseOperation := .removeItem .metadata ⟨"heir"⟩ "inventory"

/-- The heir takes the confirmation back that nobody gave. -/
def takesInventoryBack : CaseOperation :=
  .performOnItem .metadata .cancelPrePublishOrAcknowledge ⟨"heir"⟩ "inventory"

end Sample

namespace Case

/-- Neither taking back nor removing has an effect once the ledger has taken the inventory in. -/
theorem acknowledgement_of_inventory :
    ∃ made, Case.openNew Sample.estate .epoch = .ok made ∧
      let stamped := (made.after Sample.inventoryAdded).after [Sample.acknowledgesInventory]
      let last := stamped.after [Sample.takesInventory]
      ∃ final, ((last.after [Sample.takesInventoryBack, Sample.removesInventory]).collection .metadata).get?
          "inventory" = some final ∧
        final.acknowledgedOn = some .epoch ∧ final.status = .acknowledged := by
  refine ⟨_, rfl, ?_⟩
  intro stamped last
  have notRemoved : stamped.Spares (·.Removes .metadata "inventory") [Sample.takesInventory] :=
    spares_of_forall (by simp [Sample.takesInventory, CaseOperation.Removes])
  have notTakenBack : stamped.Spares (·.TakesBack .metadata "inventory") [Sample.takesInventory] :=
    spares_of_forall (by simp [Sample.takesInventory, CaseOperation.TakesBack])
  obtain ⟨later, hlater, _, _, standing, forGood⟩ :=
    @acknowledgement_lasts _ .metadata "inventory" _ rfl rfl .epoch [Sample.takesInventory] notRemoved
  have taken : ∀ item ∈ (last.collection .metadata).get? "inventory", ¬item.IsDraft := by
    decide +kernel +zetaReduce
  obtain ⟨final, hfinal, _, written, stands⟩ :=
    forGood (taken later hlater) [Sample.takesInventoryBack, Sample.removesInventory]
  exact ⟨final, hfinal, written, stands (standing notTakenBack)⟩

/-- Without that either undoes the acknowledgement, in a case that can come about. -/
theorem acknowledgement_undone :
    ∃ made, Case.openNew Sample.estate .epoch = .ok made ∧
      let c := made.after Sample.inventoryAdded
      let stamped := c.after [Sample.acknowledgesInventory]
      c.Reachable ∧
        (∃ item, (c.collection .metadata).get? "inventory" = some item ∧ item.acknowledgedOn = none) ∧
        (∃ item, (stamped.collection .metadata).get? "inventory" = some item ∧
          item.acknowledgedOn = some .epoch) ∧
        ((stamped.after [Sample.removesInventory]).collection .metadata).get? "inventory" = none ∧
        ∃ item, ((stamped.after [Sample.takesInventoryBack]).collection .metadata).get? "inventory" =
          some item ∧ item.status = .draft := by
  have reachable := (@Case.Reachable.openNew Sample.estate .epoch _ rfl).after Sample.inventoryAdded
  exact ⟨_, rfl, reachable, ⟨_, rfl, by decide +kernel⟩, ⟨_, rfl, by decide +kernel⟩, by decide +kernel,
    _, rfl, by decide +kernel⟩

end Case
end CaseRegistry
