import CaseRegistry.Proofs.Case.Continuity

/-! What is written once.

What the ledger says of a case and of its items is written once: `Case.WriteOnce` lists what
an operation, whether it succeeds or fails, leaves as it was set. Most of it is part of the
continuity of cases and items; what is new is the voiding, whose reason may be set before
the ledger dates it (`Becomes.voidInfo`), and the places of items, which only move up
(`IsListed.index_le`). -/
namespace CaseRegistry

namespace Case

/-- What an operation leaves as it was set. -/
structure WriteOnce (c later : Case) : Prop where
  createdOn : ∀ on, c.createdOn = some on → later.createdOn = some on
  creationFees : ∀ fees, c.creationFees = some fees → later.creationFees = some fees
  closedOn : ∀ on, c.closedOn = some on → later.closedOn = some on
  /-- The reason of a voiding stays, and once the voiding is dated the date and the replacer. -/
  voidInfo : ∀ info, c.voidInfo = some info → ∃ info', later.voidInfo = some info' ∧
    info'.reason = info.reason ∧
      ∀ on, info.voidedOn = some on → info'.voidedOn = some on ∧ info'.replacer = info.replacer
  collectionItems : c.collectionItems <+: later.collectionItems
  /-- A confirmed item is not removed. -/
  confirmed : ∀ kind, ∀ item ∈ (c.collection kind).items, ∀ on, item.addedOn = some on →
    ∃ after ∈ (later.collection kind).items, after.key = item.key ∧ after.submitter = item.submitter ∧
      after.mode = item.mode ∧ after.addedOn = some on
  /-- An item that is there before and after, under the one key it has. -/
  items : ∀ kind, ∀ item ∈ (c.collection kind).items, ∀ after ∈ (later.collection kind).items,
    after.key = item.key →
      (∀ fees, item.fees = some fees → after.fees = some fees) ∧
      (∀ on, item.acknowledgedOn = some on → after.acknowledgedOn = some on) ∧
      after.index ≤ item.index

section
variable {c c' : Case} {op : CaseOperation} {kind : ItemKind} {item later : Item kind}

theorem Becomes.voidInfo (h : c.Becomes op c') {info : VoidInfo} (hinfo : c.voidInfo = some info) :
    ∃ info', c'.voidInfo = some info' ∧ info'.reason = info.reason ∧
      ∀ on, info.voidedOn = some on → info'.voidedOn = some on ∧ info'.replacer = info.replacer := by
  cases h with
  | preVoid _ fresh => cases fresh.symm.trans hinfo
  | makeVoid _ valid known | voidAndReplace _ valid known =>
    -- It was only asked for, or it would be void by now.
    have asked : ∀ on, info.voidedOn ≠ some on := fun on dated =>
      valid ⟨info, hinfo, Option.isSome_iff_exists.mpr ⟨on, dated⟩⟩
    rw [hinfo, Option.getD_some] at known
    subst known
    exact ⟨_, rfl, rfl, fun on dated => absurd dated (asked on)⟩
  | _ => exact ⟨info, hinfo, rfl, fun _ dated => ⟨dated, rfl⟩⟩

theorem CollectionBecomes.idxOf_keys_le {new : Collection kind} (h : c.CollectionBecomes kind op new)
    (listing : (c.collection kind).IsListing) {key : kind.Key} (before : key ∈ (c.collection kind).keys)
    (after : key ∈ new.keys) : new.keys.idxOf key ≤ (c.collection kind).keys.idxOf key := by
  cases h with
  | same => exact Nat.le_refl _
  | put found _ inPlace =>
    rw [Collection.keys_put _ (inPlace.key.trans (Collection.key_of_get? found))]
  | add _ _ done => rw [Collection.keys_add done, List.idxOf_append_of_mem before]
  | remove _ done =>
    rw [Collection.keys_remove done] at after ⊢
    exact Collection.idxOf_erase_le (listing.distinct.mem_erase_iff.mp after).1 _

theorem IsListed.index_le (hc : c.IsListed) (h : c.Becomes op c') (before : item ∈ (c.collection kind).items)
    (after : later ∈ (c'.collection kind).items) (same : later.key = item.key) :
    later.index ≤ item.index := by
  rw [(hc kind).index_eq before, (h.isListed hc kind).index_eq after, ← same]
  exact (h.collection kind).idxOf_keys_le (hc kind) (same ▸ List.mem_map_of_mem before)
    (List.mem_map_of_mem after)

/-- An item that is there afterwards is a later state of the one that was there under its key. -/
theorem IsListed.continues (hc : c.IsListed) (h : c.Becomes op c') (before : item ∈ (c.collection kind).items)
    (after : later ∈ (c'.collection kind).items) (same : later.key = item.key) : item.Continues later := by
  rcases h.origin after with ⟨old, hold, becomes⟩ | ⟨_, payload, _, _, fresh, rfl⟩
  · have one : old = item :=
      List.inj_on_of_nodup_map (hc kind).distinct hold before (becomes.continues.key.symm.trans same)
    exact one ▸ becomes.continues
  · have known : item.key ∈ (c.collection kind).keys := List.mem_map_of_mem before
    rw [← same] at known
    exact absurd (Collection.mem_iff_keys.mpr known) fresh

end

/-- In every case that can come about, what the ledger has said is kept by every operation: it is
written once. -/
theorem reachable_writeOnce {c : Case} (h : c.Reachable) (op : CaseOperation) :
    c.WriteOnce ((Case.apply op).run c).2 := by
  have continues := apply_continues op c
  have becomes := apply_becomes op c
  have listed := h.isListed
  refine
    { createdOn := continues.createdOn
      creationFees := continues.creationFees
      closedOn := continues.closedOn
      voidInfo := fun info hinfo => becomes.voidInfo hinfo
      collectionItems := continues.collectionItems
      confirmed := fun kind item mem on hon => ?_
      items := fun kind item mem after hafter same => ?_ }
  · obtain ⟨after, found, stays⟩ := continues.items kind item.key item ((listed kind).mem_iff.mp mem)
      (by simp [Item.IsDraft, hon])
    exact ⟨after, Collection.mem_of_get? found, stays.key, stays.submitter, stays.mode, stays.addedOn on hon⟩
  · have stays := listed.continues becomes mem hafter same
    exact ⟨stays.fees, stays.acknowledgedOn, listed.index_le becomes mem hafter same⟩

end Case

/-! ### A catalogue whose title is taken out -/

namespace Sample

/-- The ledger makes the case, charges for it and takes the year in; then the gallery asks for the
case to be void. -/
def catalogueHistory : List CaseOperation :=
  [.submit, .setCreatedDate .epoch, .setCreationFees ⟨5, none⟩,
    .addCollectionItem "first print" .epoch ⟨5, none⟩,
    .addItem .metadata ⟨"gallery"⟩ ⟨"title", "harbours"⟩,
    .addItem .metadata ⟨"artist"⟩ ⟨"year", "1921"⟩,
    .stampItem .metadata (.added .epoch) "year", .stampItem .metadata (.fees ⟨1, some 2⟩) "year",
    .preVoid "sold"]

def removesTitle : CaseOperation := .removeItem .metadata ⟨"gallery"⟩ "title"

end Sample

theorem Case.writeOnce_of_catalogue :
    ∃ made, Case.draft Sample.prints = .ok made ∧
      let c := made.after Sample.catalogueHistory
      let later := ((Case.apply Sample.removesTitle).run c).2
      (c.collection .metadata).items.map (fun item => (item.key, item.index, item.addedOn)) =
          [("title", 0, none), ("year", 1, some .epoch)] ∧
        (later.collection .metadata).items.map (fun item => (item.key, item.index, item.addedOn)) =
          [("year", 0, some .epoch)] ∧
        c.createdOn = some .epoch ∧ c.IsPreVoid ∧ c.Reachable ∧ c.WriteOnce later := by
  have reachable := (Case.Reachable.draft (d := Sample.prints) rfl).after Sample.catalogueHistory
  exact ⟨_, rfl, by decide +kernel, by decide +kernel, by decide +kernel, by decide +kernel, reachable,
    Case.reachable_writeOnce reachable Sample.removesTitle⟩

end CaseRegistry
