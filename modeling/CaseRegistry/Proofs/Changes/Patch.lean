import CaseRegistry.Proofs.Changes.Accounts
import Mathlib.Data.List.Basic

/-! Items brought up to date by a merged change set.

A store that holds the items as they were before a run of operations, and has the merged change
set of the run, deletes, inserts, writes over and numbers anew (`Collection.patch`) and holds the
items as they are afterwards, in their order (`patch_of_performEach`). Records are taken from the
items afterwards, indexes of items that stayed from the moves alone. -/
namespace CaseRegistry

open ChangeSet (move? move?_of_mem)

/-! ### Patching -/

namespace Collection

variable {kind : ItemKind}

/-- Writes the final record over an item that the change set lists as updated. -/
def overwrite (changes : ChangeSet) (final : Collection kind) (item : Item kind) : Item kind :=
  if item.ref ∈ changes.updated then
    match final.named? item.ref with
    | some new => { new with index := item.index }
    | none => item
  else item

/-- Gives an item the index that its move leads to. -/
def reindex (changes : ChangeSet) (item : Item kind) : Item kind :=
  match move? changes.reindexed item.ref with
  | some move => { item with index := move.after }
  | none => item

/-- Deletes items, inserts others with their final records, writes final records over items, and
numbers items anew, as a change set says. -/
def patch (c : Collection kind) (changes : ChangeSet) (final : Collection kind) : Collection kind :=
  let kept := c.items.filter (·.ref ∉ changes.removed)
  let inserted := changes.added.filterMap final.named?
  ⟨(kept.map (overwrite changes final) ++ inserted).map (reindex changes)⟩

variable {c final : Collection kind} {changes : ChangeSet} {ref : ItemRef} {item : Item kind}

theorem named?_of_mem (distinct : c.HasDistinctKeys) (mem : item ∈ c.items) :
    c.named? item.ref = some item := by
  obtain ⟨found, hfound⟩ := Option.isSome_iff_exists.mp
    (named?_isSome.mpr (List.mem_map_of_mem mem))
  rw [hfound, List.inj_on_of_nodup_map (refs_nodup.mpr distinct) (mem_of_named? hfound) mem
    (ref_of_named? hfound)]

/-- A collection is what is found under its references. -/
theorem filterMap_named?_refs (distinct : c.HasDistinctKeys) :
    c.refs.filterMap c.named? = c.items := by
  have found : ∀ item ∈ c.items, (c.named? ∘ Item.ref) item = some (id item) := fun item mem =>
    named?_of_mem distinct mem
  rw [refs, List.filterMap_map, List.filterMap_eq_map_iff_forall_eq_some.mpr found, List.map_id]

theorem overwrite_keeps {old new : Item kind} (h : changes.Follows old.ref old new)
    (found : final.named? old.ref = some new) :
    (overwrite changes final old).record = new.record ∧
      (overwrite changes final old).index = old.index ∧
      (overwrite changes final old).ref = old.ref := by
  unfold overwrite
  rw [found]
  split
  case isTrue =>
    have named : new.ref = old.ref := ref_of_named? found
    exact ⟨rfl, rfl, named⟩
  case isFalse unlisted => exact ⟨(h.record unlisted).symm, rfl, rfl⟩

/-- An item that stayed is brought up to date. -/
theorem reindex_overwrite {old new : Item kind} (h : changes.Follows old.ref old new)
    (found : final.named? old.ref = some new) :
    reindex changes (overwrite changes final old) = new := by
  obtain ⟨record, index, ref⟩ := overwrite_keeps h found
  unfold reindex
  rw [ref]
  have leads := h.move
  cases moves : move? changes.reindexed old.ref with
  | none =>
    rw [moves] at leads
    exact Item.eq_of_record record (index.trans leads)
  | some move =>
    rw [moves] at leads
    exact Item.eq_of_record record leads.2

/-- An item whose move leads to where it is stays. -/
theorem reindex_eq_self (placed : ∀ move, move? changes.reindexed item.ref = some move →
    move.after = item.index) : reindex changes item = item := by
  unfold reindex
  cases moves : move? changes.reindexed item.ref with
  | none => rfl
  | some move => exact Item.eq_of_record rfl (placed move moves)

end Collection

namespace Case

variable {a b c c' : Case} {changes : ChangeSet}

section
variable {kind : ItemKind} (h : a.Accounts changes c)
include h

/-- Moves lead to where items are at the end. -/
theorem Accounts.reindex_eq_self {item : Item kind} {ref : ItemRef}
    (found : (c.collection kind).named? ref = some item) :
    Collection.reindex changes item = item := by
  obtain rfl := Collection.ref_of_named? found
  refine Collection.reindex_eq_self fun move moved => ?_
  obtain ⟨new, hnew, after⟩ := h.placed item.ref move moved
  have same : new = item := Option.some.inj (hnew.symm.trans found)
  exact after.trans (congrArg Item.index same)

/-- What stays of the items at the begin, brought up to date, is found at the end. -/
theorem Accounts.filterMap_kept (distinct : a.HasDistinctKeys) :
    ((a.collection kind).refs.filter (· ∉ changes.removed)).filterMap (c.collection kind).named? =
      (((a.collection kind).items.filter (·.ref ∉ changes.removed)).map
        (Collection.overwrite changes (c.collection kind))).map (Collection.reindex changes) := by
  rw [Collection.refs, List.filter_map, List.filterMap_map, List.map_map]
  refine List.filterMap_eq_map_iff_forall_eq_some.mpr fun old mem => ?_
  obtain ⟨mem, stays⟩ := List.mem_filter.mp mem
  have stays : old.ref ∉ changes.removed := by simpa using stays
  have hold : a.item? old.ref = some old := Collection.named?_of_mem (distinct kind) mem
  have there : (a.item? old.ref).isSome := by rw [hold]; rfl
  obtain ⟨new, hnew⟩ : ∃ new : Item kind, (c.collection kind).named? old.ref = some new :=
    Option.isSome_iff_exists.mp (h.isSome_of_stays there stays)
  have follows := h.stayed old.ref stays old hold new hnew
  show _ = some (Collection.reindex changes (Collection.overwrite changes _ old))
  rw [Collection.reindex_overwrite follows hnew]
  exact hnew

/-- What is inserted is found at the end as it is then. -/
theorem Accounts.filterMap_inserted :
    (changes.added.filter (·.kind = kind)).filterMap (c.collection kind).named? =
      (changes.added.filterMap (c.collection kind).named?).map (Collection.reindex changes) := by
  rw [List.filterMap_filter, List.map_filterMap]
  refine List.filterMap_congr fun ref _ => ?_
  cases found : (c.collection kind).named? ref with
  | none => simp
  | some item =>
    have there : ((c.collection kind).named? ref).isSome := by rw [found]; rfl
    have ofKind : ref.kind = kind :=
      Collection.kind_of_mem_refs (Collection.named?_isSome.mp there)
    simp [ofKind, h.reindex_eq_self found]

/-- What accounts for a stretch brings the items at its begin up to its end. -/
theorem Accounts.patch (distinct : a.HasDistinctKeys) (distinct' : c.HasDistinctKeys) :
    (a.collection kind).patch changes (c.collection kind) = c.collection kind := by
  show (⟨List.map _ (List.map _ _ ++ _)⟩ : Collection kind) = _
  rw [List.map_append, ← h.filterMap_kept distinct, ← h.filterMap_inserted,
    ← List.filterMap_append, ← h.listing, Collection.filterMap_named?_refs (distinct' kind)]

end

/-- What is to be inserted, written over or numbered anew is there at the end. -/
theorem Accounts.isSome_of_listed (h : a.Accounts changes c) :
    ∀ ref ∈ changes.added ++ changes.updated ++ changes.reindexed.map IndexMove.item,
      (c.item? ref).isSome := by
  intro ref listed
  simp only [List.mem_append, List.mem_map] at listed
  rcases listed with (added | updated) | ⟨move, moved, rfl⟩
  · exact h.isSome_of_added added
  · exact (h.updated ref updated).1
  · obtain ⟨new, hnew, _⟩ := h.placed move.item move (move?_of_mem h.movesOnce moved)
    simp [Option.mem_def.mp hnew]

/-! ### Runs -/

/-- Does operations one after the other, giving the change set of each. -/
def performEach : List CaseOperation → Action Case (List ChangeSet)
  | [] => return []
  | op :: rest => do
    let reply ← apply op
    let sets ← performEach rest
    return reply.changeSet :: sets

theorem performEach_cons {op : CaseOperation} {rest : List CaseOperation} {sets : List ChangeSet}
    (done : (performEach (op :: rest)).run a = (.ok sets, c)) :
    ∃ reply b later, (apply op).run a = (.ok reply, b) ∧
      (performEach rest).run b = (.ok later, c) ∧ sets = reply.changeSet :: later := by
  simp only [performEach, Action.run_bind_eq_ok] at done
  obtain ⟨reply, b, first, later, c', others, told⟩ := done
  obtain ⟨same, rfl⟩ := Prod.mk.inj told
  exact ⟨reply, b, later, first, others, (Except.ok.inj same).symm⟩

/-- What every operation of a run keeps of a case and of the changes merged so far holds at the
end. -/
theorem performEach_induction {P : Case → ChangeSet → Prop} {ops : List CaseOperation}
    {sets : List ChangeSet} (start : P a changes)
    (step : ∀ op ∈ ops, ∀ {b b' : Case} {changes : ChangeSet} {reply : CaseReply}, P b changes →
      (apply op).run b = (.ok reply, b') → P b' (changes.merge reply.changeSet))
    (done : (performEach ops).run a = (.ok sets, c)) :
    P c (sets.foldl ChangeSet.merge changes) := by
  induction ops generalizing a changes sets with
  | nil =>
    cases done
    exact start
  | cons op rest ih =>
    obtain ⟨reply, b, later, first, others, rfl⟩ := performEach_cons done
    rw [List.foldl_cons]
    exact ih (step op (by simp) start first) (fun op mem => step op (List.mem_cons_of_mem _ mem))
      others

/-- The merged change set of a run accounts for it. -/
theorem accounts_of_performEach {ops : List CaseOperation} {sets : List ChangeSet}
    (distinct : c.HasDistinctKeys) (done : (performEach ops).run c = (.ok sets, c')) :
    c.Accounts (.mergeAll sets) c' ∧ c'.HasDistinctKeys := by
  refine performEach_induction (P := fun b changes => c.Accounts changes b ∧ b.HasDistinctKeys)
    ⟨accounts_empty c, distinct⟩ ?_ done
  rintro op - b b' changes reply ⟨h, distinct⟩ first
  have changed := changes_of_apply first
  have distinct' := changed.distinct distinct
  exact ⟨h.merge (changed.accounts distinct) (changed.isDelta distinct).apart distinct distinct',
    distinct'⟩

/-- Only a removal lists an item as removed. -/
theorem removes_of_mem_removed {op : CaseOperation} {reply : CaseReply} {kind : ItemKind}
    {key : kind.Key} (distinct : a.HasDistinctKeys) (done : (apply op).run a = (.ok reply, b))
    (listed : kind.ref key ∈ reply.changeSet.removed) : op.Removes kind key := by
  have tells := ((changes_of_apply done).isDelta distinct).tells (kind.ref key)
  obtain ⟨there, gone⟩ := tells.removed.mp listed
  obtain ⟨item, found⟩ := Option.isSome_iff_exists.mp there
  have found : (a.collection kind).get? key = some item :=
    (Collection.named?_ref _ key).symm.trans found
  have gone : (b.collection kind).get? key = none :=
    (Collection.named?_ref _ key).symm.trans gone
  rcases (becomes_of_apply done).fate found with ⟨later, still, _⟩ | ⟨removal, _⟩
  · simp [gone] at still
  · exact removal

/-- An item that no operation of a run removes is not listed as removed. -/
theorem not_removed_of_performEach {ops : List CaseOperation} {sets : List ChangeSet}
    {kind : ItemKind} {key : kind.Key} (distinct : c.HasDistinctKeys)
    (done : (performEach ops).run c = (.ok sets, c')) (spared : ∀ op ∈ ops, ¬op.Removes kind key) :
    kind.ref key ∉ (ChangeSet.mergeAll sets).removed := by
  refine (performEach_induction
    (P := fun b changes => b.HasDistinctKeys ∧ kind.ref key ∉ changes.removed)
    ⟨distinct, by simp⟩ ?_ done).2
  rintro op mem b b' changes reply ⟨distinct, before⟩ first
  refine ⟨(changes_of_apply first).distinct distinct, ?_⟩
  rw [ChangeSet.mem_removed_merge]
  exact not_or.mpr ⟨before, fun listed =>
    spared op mem (removes_of_mem_removed distinct first listed)⟩

/-- The merged change set of a run brings the items of before it up to date, and everything that
it inserts, writes over or numbers anew is there after the run. An item that was there before and
is not removed on the way moves from its first index to its last one, and what is listed as
updated is listed neither as added nor as removed. -/
theorem patch_of_performEach {ops : List CaseOperation} {sets : List ChangeSet}
    (distinct : c.HasDistinctKeys) (done : (performEach ops).run c = (.ok sets, c')) :
    let merged := ChangeSet.mergeAll sets
    (∀ kind, (c.collection kind).patch merged (c'.collection kind) = c'.collection kind) ∧
      (∀ ref ∈ merged.added ++ merged.updated ++ merged.reindexed.map IndexMove.item,
        (c'.item? ref).isSome) ∧
      (∀ kind (key : kind.Key), (∀ op ∈ ops, ¬op.Removes kind key) →
        ∀ old, (c.collection kind).get? key = some old →
          ∀ move ∈ merged.reindexed, move.item = kind.ref key →
            ∃ new, (c'.collection kind).get? key = some new ∧
              move.before = old.index ∧ move.after = new.index) ∧
      ∀ ref ∈ merged.updated, ref ∉ merged.added ∧ ref ∉ merged.removed := by
  intro merged
  obtain ⟨accounts, distinct'⟩ := accounts_of_performEach distinct done
  refine ⟨fun kind => accounts.patch distinct distinct', accounts.isSome_of_listed, ?_,
    fun ref listed => (accounts.updated ref listed).2⟩
  intro kind key spared old found move mem moved
  have stays := not_removed_of_performEach distinct done spared
  have moves : move? merged.reindexed (kind.ref key) = some move :=
    moved ▸ move?_of_mem accounts.movesOnce mem
  have hold : c.item? (kind.ref key) = some old := (Collection.named?_ref _ key).trans found
  obtain ⟨new, hnew, _⟩ := accounts.placed (kind.ref key) move moves
  have leads := (accounts.stayed (kind.ref key) stays old hold new hnew).move
  rw [moves] at leads
  obtain ⟨before, after⟩ := leads
  exact ⟨new, (Collection.named?_ref _ key).symm.trans hnew, before, after⟩

end Case

/-! ### A catalogue that is rearranged -/

namespace Sample

/-- A pier is listed, the harbour is taken out and listed again behind the lighthouse, which the
ledger adds meanwhile, and the pier is given up. -/
def rearranges : List CaseOperation :=
  [addsPier, removesHarbour, .stampItem .metadata (.added .epoch) "lighthouse",
    .addItem .metadata ⟨"artist"⟩ ⟨"harbour", "1922"⟩, .removeItem .metadata ⟨"artist"⟩ "pier"]

/-- What each step of the rearrangement changes. -/
def rearranged : List ChangeSet :=
  [.add ⟨.metadata, "pier"⟩,
    ⟨[], [], [⟨.metadata, "harbour"⟩],
      [⟨⟨.metadata, "lighthouse"⟩, 1, 0⟩, ⟨⟨.metadata, "pier"⟩, 2, 1⟩]⟩,
    .update ⟨.metadata, "lighthouse"⟩,
    .add ⟨.metadata, "harbour"⟩,
    ⟨[], [], [⟨.metadata, "pier"⟩], [⟨⟨.metadata, "harbour"⟩, 2, 1⟩]⟩]

/-- What the rearrangement changes in all: the pier has come and gone. -/
def rearrangement : ChangeSet :=
  ⟨[⟨.metadata, "harbour"⟩], [⟨.metadata, "lighthouse"⟩],
    [⟨.metadata, "harbour"⟩, ⟨.metadata, "pier"⟩],
    [⟨⟨.metadata, "lighthouse"⟩, 1, 0⟩, ⟨⟨.metadata, "harbour"⟩, 2, 1⟩]⟩

end Sample

theorem Case.patch_of_rearrangement :
    ∃ made, Case.draft Sample.prints = .ok made ∧
      let c := made.after Sample.printsListed
      let later := ((Case.performEach Sample.rearranges).run c).2
      let merged := ChangeSet.mergeAll Sample.rearranged
      c.HasDistinctKeys ∧
        (Case.performEach Sample.rearranges).run c = (.ok Sample.rearranged, later) ∧
        merged = Sample.rearrangement ∧
        (∀ kind, (c.collection kind).patch merged (later.collection kind) = later.collection kind) ∧
        (∀ old, (c.collection .metadata).get? "lighthouse" = some old →
          ∃ new, (later.collection .metadata).get? "lighthouse" = some new ∧
            1 = old.index ∧ 0 = new.index) ∧
        ∀ ref ∈ merged.updated, ref ∉ merged.added ∧ ref ∉ merged.removed := by
  have reachable := (Case.Reachable.draft (d := Sample.prints) rfl).after Sample.printsListed
  have distinct := reachable.hasDistinctKeys
  obtain ⟨patched, _, moved, apart⟩ := @Case.patch_of_performEach _ _ Sample.rearranges
    Sample.rearranged distinct (Action.eq_of_fst (by decide +kernel))
  have spared : ∀ op ∈ Sample.rearranges, ¬op.Removes .metadata "lighthouse" := by
    simp [Sample.rearranges, Sample.addsPier, Sample.removesHarbour, CaseOperation.Removes]
  refine ⟨_, rfl, distinct, Action.eq_of_fst (by decide +kernel), by decide +kernel, patched, ?_,
    apart⟩
  intro old found
  exact moved .metadata "lighthouse" spared old found ⟨⟨.metadata, "lighthouse"⟩, 1, 0⟩
    (by decide +kernel) rfl

end CaseRegistry
