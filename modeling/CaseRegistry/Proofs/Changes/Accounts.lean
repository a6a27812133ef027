import CaseRegistry.Proofs.Changes.Delta
import CaseRegistry.Proofs.Changes.Merge

/-! Change sets over several operations.

A merged change set is no longer the difference between two cases: an item that was removed and
added again is listed as both. What it says is summed up by `Accounts`: which items are there
and in which order, that updates are of other items than insertions and deletions, and what is
left of an item that was not deleted. The difference that one operation makes accounts for it
(`Changes.accounts`), and change sets that account for two stretches, merged, account for both
together (`Accounts.merge`). -/
namespace CaseRegistry

open ChangeSet (LeadsFrom after_follow mem_of_move? mem_removed_merge mem_updated_merge move?
  move?_merge move?_merge_of_stays)

/-- What a change set tells of an item that stayed. -/
structure ChangeSet.Follows (changes : ChangeSet) (ref : ItemRef) {kind : ItemKind}
    (old new : Item kind) : Prop where
  record : ref ∉ changes.updated → new.record = old.record
  move : LeadsFrom old.index new.index (move? changes.reindexed ref)

/-- An item that stayed twice is followed through both stretches. -/
theorem ChangeSet.Follows.merge {changes later : ChangeSet} {ref : ItemRef} {kind : ItemKind}
    {old mid new : Item kind} (h : changes.Follows ref old mid) (h' : later.Follows ref mid new)
    (once : (changes.reindexed.map IndexMove.item).Nodup)
    (once' : (later.reindexed.map IndexMove.item).Nodup) (stays : ref ∉ later.removed)
    (notAdded : ref ∉ (changes.merge later).added)
    (notRemoved : ref ∉ (changes.merge later).removed) :
    (changes.merge later).Follows ref old new where
  record unlisted := by
    rw [mem_updated_merge] at unlisted
    have notBefore : ref ∉ changes.updated := fun listed => unlisted (.inl ⟨listed, stays⟩)
    have notLater : ref ∉ later.updated := fun listed =>
      unlisted (.inr ⟨listed, notAdded, notRemoved⟩)
    exact (h'.record notLater).trans (h.record notBefore)
  move := by
    rw [move?_merge_of_stays once once' stays]
    exact (h.move.chain h'.move).filter

namespace Collection

variable {kind : ItemKind} {c new : Collection kind} {changes : ChangeSet}

theorem kind_of_mem_refs {ref : ItemRef} (listed : ref ∈ c.refs) : ref.kind = kind := by
  obtain ⟨item, _, rfl⟩ := List.mem_map.mp listed
  rfl

/-- Items that are removed leave the order of the others, items that are added come last. -/
theorem Changes.listing (h : c.Changes new changes) (distinct : c.HasDistinctKeys) :
    new.refs = c.refs.filter (· ∉ changes.removed) ++ changes.added := by
  cases h with
  | same => simp
  | @written key item later found inPlace _ =>
    have sameKeys := keys_put c (inPlace.key.trans (key_of_get? found))
    have named : ∀ d : Collection kind, d.refs = d.keys.map kind.ref := fun d => by
      simp [refs, keys, Item.ref, Function.comp_def]
    simp [named, sameKeys, ChangeSet.update, ChangeSet.empty]
  | added fresh => simp [refs, ChangeSet.add, ChangeSet.empty]
  | @removed before behind item whole =>
    have apart : (before.map Item.ref ++ item.ref :: behind.map Item.ref).Nodup := by
      simpa [refs, whole] using refs_nodup.mpr distinct
    have left : (before.map Item.ref ++ item.ref :: behind.map Item.ref).filter (· ≠ item.ref) =
        before.map Item.ref ++ behind.map Item.ref := by
      obtain ⟨_, behindOnce, apart⟩ := List.nodup_append.mp apart
      have ahead : ∀ ref ∈ before.map Item.ref, ref ≠ item.ref := fun ref mem =>
        apart ref mem item.ref (by simp)
      have after : ∀ ref ∈ behind.map Item.ref, ref ≠ item.ref := fun ref mem same =>
        (List.nodup_cons.mp behindOnce).1 (same ▸ mem)
      rw [List.filter_append, List.filter_cons_of_neg (by simp),
        List.filter_eq_self.mpr (by simpa using ahead),
        List.filter_eq_self.mpr (by simpa using after)]
    simpa [refs, whole, map_ref_renumber] using left.symm

end Collection

namespace Case

/-- A change set accounts for what happened between two cases. -/
structure Accounts (c : Case) (changes : ChangeSet) (c' : Case) : Prop where
  /-- What was not deleted is there in its order, and behind it what was inserted. -/
  listing : ∀ kind, (c'.collection kind).refs =
    (c.collection kind).refs.filter (· ∉ changes.removed) ++
      changes.added.filter (·.kind = kind)
  addedOnce : changes.added.Nodup
  updated : ∀ ref ∈ changes.updated,
    (c'.item? ref).isSome ∧ ref ∉ changes.added ∧ ref ∉ changes.removed
  movesOnce : (changes.reindexed.map IndexMove.item).Nodup
  placed : ∀ ref move, move? changes.reindexed ref = some move →
    ∃ new ∈ c'.item? ref, move.after = new.index
  stayed : ∀ ref, ref ∉ changes.removed → ∀ old ∈ c.item? ref, ∀ new ∈ c'.item? ref,
    changes.Follows ref old new

variable {a b c c' : Case} {changes later : ChangeSet} {ref : ItemRef}

theorem item?_isSome : (c.item? ref).isSome ↔ ref ∈ (c.collection ref.kind).refs :=
  Collection.named?_isSome

theorem accounts_empty (c : Case) : c.Accounts ∅ c where
  listing := by simp
  addedOnce := .nil
  updated := by simp
  movesOnce := .nil
  placed := by simp [move?]
  stayed := by
    rintro ref - old hold new hnew
    obtain rfl := Option.some.inj (hold.symm.trans hnew)
    exact ⟨fun _ => rfl, rfl⟩

/-! ### One operation -/

theorem Changes.listing (h : c.Changes c' changes) (distinct : c.HasDistinctKeys)
    (kind : ItemKind) :
    (c'.collection kind).refs =
      (c.collection kind).refs.filter (· ∉ changes.removed) ++
        changes.added.filter (·.kind = kind) := by
  have delta := h.isDelta distinct
  obtain ⟨changed, done, others⟩ := h
  by_cases same : kind = changed
  · subst same
    have listing := done.listing (distinct kind)
    have ofKind : ∀ ref ∈ changes.added, ref.kind = kind := fun ref mem =>
      Collection.kind_of_mem_refs (listing ▸ List.mem_append_right _ mem)
    have all : changes.added.filter (·.kind = kind) = changes.added :=
      List.filter_eq_self.mpr (by simpa using ofKind)
    rw [listing, all]
  · have still : ∀ ref : ItemRef, ref.kind = kind → c'.item? ref = c.item? ref := by
      rintro ref rfl
      unfold item?
      rw [others ref.kind same]
    have notRemoved : ∀ ref ∈ (c.collection kind).refs, ref ∉ changes.removed := by
      intro ref mem removed
      have ⟨there, gone⟩ := (delta.tells ref).removed.mp removed
      rw [still ref (Collection.kind_of_mem_refs mem)] at gone
      simp [gone] at there
    have notAdded : ∀ ref ∈ changes.added, ref.kind ≠ kind := by
      intro ref added ofKind
      have ⟨absent, come⟩ := (delta.tells ref).added.mp added
      rw [still ref ofKind] at come
      simp [absent] at come
    rw [others kind same, List.filter_eq_self.mpr (by simpa using notRemoved),
      List.filter_eq_nil_iff.mpr (by simpa using notAdded), List.append_nil]

theorem IsDelta.follows (h : c.IsDelta changes c') {old new : Item ref.kind}
    (hold : c.item? ref = some old) (hnew : c'.item? ref = some new) :
    changes.Follows ref old new := by
  have tells := h.tells ref
  rw [hold, hnew] at tells
  refine ⟨fun unlisted => ?_, ?_⟩
  · by_contra ne
    exact unlisted (tells.updated.mpr ⟨old, rfl, new, rfl, ne⟩)
  · cases found : move? changes.reindexed ref with
    | some move =>
      obtain ⟨mem, rfl⟩ := mem_of_move? found
      obtain ⟨x, hx, y, hy, before, after, _⟩ := (tells.reindexed move.before move.after).mp mem
      obtain rfl := Option.some.inj hx
      obtain rfl := Option.some.inj hy
      exact ⟨before.symm, after.symm⟩
    | none =>
      by_contra ne
      have mem := (tells.reindexed old.index new.index).mpr ⟨old, rfl, new, rfl, rfl, rfl, ne⟩
      simpa using List.find?_eq_none.mp found _ mem

/-- The difference that an operation makes accounts for it. -/
theorem Changes.accounts (h : c.Changes c' changes) (distinct : c.HasDistinctKeys) :
    c.Accounts changes c' := by
  have delta := h.isDelta distinct
  exact {
    listing := h.listing distinct
    addedOnce := delta.once.added
    updated := by
      intro ref listed
      obtain ⟨old, hold, new, hnew, _⟩ := (delta.tells ref).updated.mp listed
      refine ⟨by simp [Option.mem_def.mp hnew], fun added => ?_, fun removed => ?_⟩
      · have none := ((delta.tells ref).added.mp added).1
        simp [none] at hold
      · have none := ((delta.tells ref).removed.mp removed).2
        simp [none] at hnew
    movesOnce := delta.once.reindexed
    placed := by
      intro ref move found
      obtain ⟨mem, rfl⟩ := mem_of_move? found
      obtain ⟨old, hold, new, hnew, _, after, _⟩ :=
        ((delta.tells move.item).reindexed move.before move.after).mp mem
      exact ⟨new, hnew, after.symm⟩
    stayed := fun ref _ old hold new hnew => delta.follows hold hnew }

/-- What an operation adds it does not remove. -/
theorem IsDelta.apart (h : c.IsDelta changes c') :
    ∀ ref ∈ changes.added, ref ∉ changes.removed := by
  intro ref added removed
  have before := ((h.tells ref).added.mp added).1
  have there := ((h.tells ref).removed.mp removed).1
  simp [before] at there

/-! ### Several operations -/

/-- What is inserted later was not there. -/
theorem Accounts.fresh (h' : b.Accounts later c) (apart : ∀ ref ∈ later.added, ref ∉ later.removed)
    (distinct : c.HasDistinctKeys) : ∀ ref ∈ later.added, b.item? ref = none := by
  intro ref added
  have once := Collection.refs_nodup.mpr (distinct ref.kind)
  rw [h'.listing, List.nodup_append] at once
  refine Collection.named?_eq_none.mpr fun listed => ?_
  exact once.2.2 ref (List.mem_filter.mpr ⟨listed, by simpa using apart ref added⟩) ref
    (List.mem_filter.mpr ⟨added, by simp⟩) rfl

theorem Accounts.isSome_of_added (h : a.Accounts changes b) (added : ref ∈ changes.added) :
    (b.item? ref).isSome := by
  rw [item?_isSome, h.listing]
  exact List.mem_append_right _ (List.mem_filter.mpr ⟨added, by simp⟩)

theorem Accounts.isSome_of_stays (h : a.Accounts changes b) (there : (a.item? ref).isSome)
    (stays : ref ∉ changes.removed) : (b.item? ref).isSome := by
  rw [item?_isSome, h.listing]
  exact List.mem_append_left _ (List.mem_filter.mpr ⟨item?_isSome.mp there, by simpa using stays⟩)

/-- What was there and was not deleted was not inserted. -/
theorem Accounts.not_added (h : a.Accounts changes b) (distinct : b.HasDistinctKeys)
    (there : (a.item? ref).isSome) (stays : ref ∉ changes.removed) : ref ∉ changes.added := by
  intro added
  have once := Collection.refs_nodup.mpr (distinct ref.kind)
  rw [h.listing, List.nodup_append] at once
  exact once.2.2 ref (List.mem_filter.mpr ⟨item?_isSome.mp there, by simpa using stays⟩) ref
    (List.mem_filter.mpr ⟨added, by simp⟩) rfl

theorem Accounts.added_merge (h : a.Accounts changes b) (h' : b.Accounts later c)
    (apart : ∀ ref ∈ later.added, ref ∉ later.removed) (distinct : c.HasDistinctKeys) :
    (changes.merge later).added = changes.added.filter (· ∉ later.removed) ++ later.added := by
  have fresh : ∀ ref ∈ later.added, ref ∉ changes.added := fun ref mem added => by
    have there := h.isSome_of_added added
    simp [h'.fresh apart distinct ref mem] at there
  have stays : later.added.filter (· ∉ later.removed) = later.added :=
    List.filter_eq_self.mpr (by simpa using apart)
  rw [ChangeSet.added_merge, ChangeSet.foldl_listOnce_of_fresh h'.addedOnce fresh,
    List.filter_append, stays]

/-- A move that is left of two stretches leads to where the item is at the end. -/
theorem Accounts.placed_merge (h : a.Accounts changes b) (h' : b.Accounts later c)
    {move : IndexMove} (found : move? (changes.merge later).reindexed ref = some move) :
    ∃ new ∈ c.item? ref, move.after = new.index := by
  rw [move?_merge h.movesOnce h'.movesOnce] at found
  have found := Option.eq_some_of_filter_eq_some found
  cases second : move? later.reindexed ref with
  | some last =>
    obtain ⟨new, hnew, after⟩ := h'.placed ref last second
    rw [second] at found
    obtain rfl := Option.some.inj found
    exact ⟨new, hnew, (after_follow _ last).trans after⟩
  | none =>
    rw [second] at found
    obtain ⟨first, stays⟩ := Option.filter_eq_some_iff.mp found
    obtain ⟨mid, hmid, after⟩ := h.placed ref move first
    have stays : ref ∉ later.removed := by simpa [(mem_of_move? first).2] using stays
    obtain ⟨new, hnew⟩ := Option.isSome_iff_exists.mp
      (h'.isSome_of_stays (by simp [Option.mem_def.mp hmid]) stays)
    have still := (h'.stayed ref stays mid hmid new hnew).move
    rw [second] at still
    exact ⟨new, hnew, after.trans still⟩

/-- Change sets that account for two stretches account, merged, for both together. -/
theorem Accounts.merge (h : a.Accounts changes b) (h' : b.Accounts later c)
    (apart : ∀ ref ∈ later.added, ref ∉ later.removed) (distinct : b.HasDistinctKeys)
    (distinct' : c.HasDistinctKeys) : a.Accounts (changes.merge later) c := by
  have added := h.added_merge h' apart distinct'
  have notInserted : ∀ ref, (b.item? ref).isSome → ref ∉ later.added := fun ref there mem => by
    simp [h'.fresh apart distinct' ref mem] at there
  exact {
    listing := by
      intro kind
      rw [h'.listing, h.listing, added]
      simp [List.filter_filter, mem_removed_merge, not_or, Bool.and_comm]
    addedOnce := by
      rw [added]
      refine List.nodup_append.mpr ⟨h.addedOnce.filter _, h'.addedOnce, ?_⟩
      rintro ref before _ mem rfl
      exact notInserted ref (h.isSome_of_added (List.mem_of_mem_filter before)) mem
    updated := by
      intro ref listed
      rcases mem_updated_merge.mp listed with ⟨before, stays⟩ | ⟨last, notAdded, notRemoved⟩
      · obtain ⟨there, notAdded, notRemoved⟩ := h.updated ref before
        refine ⟨h'.isSome_of_stays there stays, ?_, ?_⟩
        · rw [added]
          simp [notAdded, notInserted ref there]
        · rw [mem_removed_merge]
          exact not_or.mpr ⟨notRemoved, stays⟩
      · exact ⟨(h'.updated ref last).1, notAdded, notRemoved⟩
    movesOnce := ChangeSet.nodup_reindexed_merge h.movesOnce
    placed := fun ref move found => h.placed_merge h' found
    stayed := by
      intro ref stays old hold new hnew
      obtain ⟨staysBefore, staysLater⟩ := not_or.mp (mem_removed_merge.not.mp stays)
      have there : (a.item? ref).isSome := by simp [Option.mem_def.mp hold]
      obtain ⟨mid, hmid⟩ := Option.isSome_iff_exists.mp (h.isSome_of_stays there staysBefore)
      have notAdded : ref ∉ (changes.merge later).added := by
        rw [added]
        simp [h.not_added distinct there staysBefore, notInserted ref (by simp [hmid])]
      exact (h.stayed ref staysBefore old hold mid hmid).merge
        (h'.stayed ref staysLater mid hmid new hnew) h.movesOnce h'.movesOnce staysLater notAdded
        stays }

end Case
end CaseRegistry
