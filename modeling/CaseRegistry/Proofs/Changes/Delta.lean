import CaseRegistry.Proofs.Case.Listing
import CaseRegistry.Proofs.Changes.Shapes

/-! Change sets as differences.

The change set of an operation that succeeds is the difference between the items before and
after (`isDelta_of_apply`): for every reference the lists of the set say what comparing the item
found under it before and after says (`Tells`), no list names an item twice, and an item that no
list names is as it was. The keys of the items of a kind must differ from each other, which
operations keep. -/
namespace CaseRegistry

/-! ### Items by their reference -/

@[simp] theorem Item.ref_reindexed {kind : ItemKind} (item : Item kind) (n : Nat) :
    Item.ref { item with index := n } = item.ref := rfl

namespace Collection

variable {kind : ItemKind} {c : Collection kind} {ref : ItemRef}

/-- The first item with a reference. -/
def named? (c : Collection kind) (ref : ItemRef) : Option (Item kind) :=
  c.items.find? (·.ref = ref)

/-- The keys of the items differ from each other. -/
def HasDistinctKeys (c : Collection kind) : Prop := c.keys.Nodup

theorem named?_ref (c : Collection kind) (key : kind.Key) :
    c.named? (kind.ref key) = c.get? key := by
  unfold named? get? Item.ref
  simp only [ItemKind.ref_inj]

theorem ref_of_named? {item : Item kind} (found : c.named? ref = some item) : item.ref = ref := by
  simpa using List.find?_some found

theorem mem_of_named? {item : Item kind} (found : c.named? ref = some item) : item ∈ c.items :=
  List.mem_of_find?_eq_some found

theorem named?_isSome : (c.named? ref).isSome ↔ ref ∈ c.refs := by
  simp [named?, refs]

theorem named?_eq_none : c.named? ref = none ↔ ref ∉ c.refs := by
  rw [← named?_isSome, Option.not_isSome_iff_eq_none]

/-- A collection holds items of its own kind. -/
theorem named?_of_kind_ne (ne : ref.kind ≠ kind) : c.named? ref = none := by
  refine named?_eq_none.mpr fun listed => ne ?_
  obtain ⟨item, _, rfl⟩ := List.mem_map.mp listed
  rfl

theorem refs_nodup : c.refs.Nodup ↔ c.HasDistinctKeys := by
  have named : c.refs = c.keys.map kind.ref := by
    simp [refs, keys, Item.ref, Function.comp_def]
  rw [named]
  exact List.nodup_map_iff fun a b => ItemKind.ref_inj.mp

theorem named?_put {key : kind.Key} {later : Item kind} (same : later.key = key) :
    (c.put key later).named? ref =
      if ref = kind.ref key then (c.get? key).map fun _ => later else c.named? ref := by
  by_cases named : ∃ other, ref = kind.ref other
  · obtain ⟨other, rfl⟩ := named
    simp only [named?_ref, get?_put c same, ItemKind.ref_inj]
  · have unnamed : ∀ d : Collection kind, d.named? ref = none := fun d =>
      named?_eq_none.mpr fun listed => by
        obtain ⟨item, _, rfl⟩ := List.mem_map.mp listed
        exact named ⟨item.key, rfl⟩
    rw [unnamed, unnamed, if_neg fun h => named ⟨key, h⟩]

end Collection

/-- What a change set says of one reference, told by the items found under it before and after. -/
structure ChangeSet.Tells (changes : ChangeSet) (ref : ItemRef) {kind : ItemKind}
    (old new : Option (Item kind)) : Prop where
  added : ref ∈ changes.added ↔ old = none ∧ new.isSome
  removed : ref ∈ changes.removed ↔ old.isSome ∧ new = none
  updated : ref ∈ changes.updated ↔ ∃ x ∈ old, ∃ y ∈ new, y.record ≠ x.record
  reindexed : ∀ m n, ⟨ref, m, n⟩ ∈ changes.reindexed ↔
    ∃ x ∈ old, ∃ y ∈ new, x.index = m ∧ y.index = n ∧ m ≠ n

namespace ChangeSet

@[simp] theorem added_empty : (∅ : ChangeSet).added = [] := rfl
@[simp] theorem updated_empty : (∅ : ChangeSet).updated = [] := rfl
@[simp] theorem removed_empty : (∅ : ChangeSet).removed = [] := rfl
@[simp] theorem reindexed_empty : (∅ : ChangeSet).reindexed = [] := rfl

/-- Some list of the change set names the reference. -/
def Mentions (changes : ChangeSet) (ref : ItemRef) : Prop :=
  ref ∈ changes.added ∨ ref ∈ changes.updated ∨ ref ∈ changes.removed ∨
    ∃ move ∈ changes.reindexed, move.item = ref

/-- No list of the change set names an item twice. -/
structure NamesOnce (changes : ChangeSet) : Prop where
  added : changes.added.Nodup
  updated : changes.updated.Nodup
  removed : changes.removed.Nodup
  reindexed : (changes.reindexed.map IndexMove.item).Nodup

variable {changes : ChangeSet} {ref : ItemRef} {kind : ItemKind} {old new : Option (Item kind)}

theorem tells_same (still : ¬changes.Mentions ref) (x : Option (Item kind)) :
    changes.Tells ref x x where
  added := ⟨fun h => absurd (.inl h) still, fun ⟨hx, found⟩ => by simp [hx] at found⟩
  removed :=
    ⟨fun h => absurd (.inr (.inr (.inl h))) still, fun ⟨found, hx⟩ => by simp [hx] at found⟩
  updated := by
    refine ⟨fun h => absurd (.inr (.inl h)) still, ?_⟩
    rintro ⟨a, ha, b, hb, ne⟩
    exact absurd (congrArg Item.record (Option.some.inj (hb.symm.trans ha))) ne
  reindexed m n := by
    refine ⟨fun h => absurd (.inr (.inr (.inr ⟨_, h, rfl⟩))) still, ?_⟩
    rintro ⟨a, ha, b, hb, rfl, rfl, ne⟩
    exact absurd (congrArg Item.index (Option.some.inj (ha.symm.trans hb))) ne

theorem Tells.eq (h : changes.Tells ref old new) (still : ¬changes.Mentions ref) : new = old := by
  simp only [Mentions, not_or, not_exists, not_and] at still
  obtain ⟨notAdded, notUpdated, notRemoved, notMoved⟩ := still
  cases old with
  | none =>
    cases new with
    | none => rfl
    | some y => exact absurd (h.added.mpr ⟨rfl, rfl⟩) notAdded
  | some x =>
    cases new with
    | none => exact absurd (h.removed.mpr ⟨rfl, rfl⟩) notRemoved
    | some y =>
      have sameRecord : y.record = x.record := by
        by_contra ne
        exact notUpdated (h.updated.mpr ⟨x, rfl, y, rfl, ne⟩)
      have sameIndex : y.index = x.index := by
        by_contra ne
        have moved := (h.reindexed x.index y.index).mpr ⟨x, rfl, y, rfl, rfl, rfl, Ne.symm ne⟩
        exact notMoved _ moved rfl
      rw [Item.eq_of_record sameRecord sameIndex]

/-- Nothing is said of what is neither there before nor after. -/
theorem Tells.not_mentions (h : changes.Tells ref (none : Option (Item kind)) none) :
    ¬changes.Mentions ref := by
  rintro (added | updated | removed | ⟨⟨_, m, n⟩, moved, rfl⟩)
  · simpa using h.added.mp added
  · simpa using h.updated.mp updated
  · simpa using h.removed.mp removed
  · simpa using (h.reindexed m n).mp moved

/-! What the change sets of the three kinds of change say of the item they are about. -/

theorem tells_update {item later : Item kind} (inPlace : item.InPlace later)
    (differs : later.record ≠ item.record) (ref : ItemRef) :
    (update ref).Tells ref (some item) (some later) where
  added := by simp [update, empty]
  removed := by simp [update, empty]
  updated := by simpa [update, empty] using differs
  reindexed := by simp [update, empty, inPlace.index]

theorem tells_add (item : Item kind) (ref : ItemRef) :
    (add ref).Tells ref none (some item) where
  added := by simp [add, empty]
  removed := by simp [add, empty]
  updated := by simp [add, empty]
  reindexed := by simp [add, empty]

theorem tells_remove (item : Item kind) {moves : List IndexMove}
    (still : ∀ move ∈ moves, move.item ≠ ref) :
    ({ (∅ : ChangeSet) with removed := [ref], reindexed := moves }).Tells ref (some item) none where
  added := by simp
  removed := by simp
  updated := by simp
  reindexed m n := by simpa using fun moved => still _ moved rfl

end ChangeSet

/-! ### One collection -/

namespace Collection

open ChangeSet (Tells NamesOnce tells_same)

variable {kind : ItemKind} {c new : Collection kind} {changes : ChangeSet}

/-- Each move is of one of the items, which are taken in their order. -/
theorem map_item_movesOf (n : Nat) (items : List (Item kind)) :
    ((movesOf n items).map IndexMove.item).Sublist (items.map Item.ref) := by
  induction items generalizing n with
  | nil => exact .slnil
  | cons item rest ih =>
    unfold movesOf
    split
    · exact (ih (n + 1)).cons _
    · exact (ih (n + 1)).cons_cons _

theorem ref_of_mem_movesOf {n : Nat} {items : List (Item kind)} {move : IndexMove}
    (mem : move ∈ movesOf n items) : move.item ∈ items.map Item.ref :=
  (map_item_movesOf n items).subset (List.mem_map_of_mem mem)

theorem map_ref_renumber (n : Nat) (items : List (Item kind)) :
    (renumber n items).map Item.ref = items.map Item.ref := by
  induction items generalizing n with
  | nil => rfl
  | cons item rest ih => exact congrArg (item.ref :: ·) (ih (n + 1))

theorem mem_movesOf_cons {n : Nat} {item : Item kind} {rest : List (Item kind)} {move : IndexMove} :
    move ∈ movesOf n (item :: rest) ↔
      move = ⟨item.ref, item.index, n⟩ ∧ item.index ≠ n ∨ move ∈ movesOf (n + 1) rest := by
  rw [movesOf]
  split
  case isTrue right => simp [right]
  case isFalse wrong => simp [wrong]

/-- Numbering items anew moves those that had another index. -/
theorem tells_renumber {items : List (Item kind)} (distinct : (items.map Item.ref).Nodup)
    (n : Nat) (ref : ItemRef) :
    Tells { (∅ : ChangeSet) with reindexed := movesOf n items } ref
      (items.find? (·.ref = ref)) ((renumber n items).find? (·.ref = ref)) := by
  induction items generalizing n with
  | nil => exact tells_same (by simp [ChangeSet.Mentions, movesOf]) none
  | cons item rest ih =>
    obtain ⟨fresh, distinct⟩ := List.nodup_cons.mp distinct
    by_cases here : item.ref = ref
    · subst here
      have notBehind : ∀ m k, ⟨item.ref, m, k⟩ ∉ movesOf (n + 1) rest := fun m k moved =>
        fresh (ref_of_mem_movesOf moved)
      have old : (item :: rest).find? (·.ref = item.ref) = some item := by simp
      have new : (renumber n (item :: rest)).find? (·.ref = item.ref) =
          some { item with index := n } := List.find?_cons_of_pos (by simp)
      rw [old, new]
      exact {
        added := by simp
        removed := by simp
        updated := by simp
        reindexed := fun m k => by
          simp only [mem_movesOf_cons, notBehind, or_false, IndexMove.mk.injEq, true_and,
            Option.mem_def, Option.some.injEq, exists_eq_left']
          grind }
    · have old : (item :: rest).find? (·.ref = ref) = rest.find? (·.ref = ref) := by simp [here]
      have new : (renumber n (item :: rest)).find? (·.ref = ref) =
          (renumber (n + 1) rest).find? (·.ref = ref) := List.find?_cons_of_neg (by simp [here])
      rw [old, new]
      have rest := ih distinct (n + 1)
      exact {
        added := rest.added
        removed := rest.removed
        updated := rest.updated
        reindexed := fun m k => by
          have other : (⟨ref, m, k⟩ : IndexMove) ≠ ⟨item.ref, item.index, n⟩ := fun same =>
            here (congrArg IndexMove.item same).symm
          simpa only [mem_movesOf_cons, other, false_and, false_or] using rest.reindexed m k }

theorem tells_removed {before behind : List (Item kind)} {item : Item kind}
    (whole : c.items = before ++ item :: behind) (distinct : c.refs.Nodup) (ref : ItemRef) :
    Tells { (∅ : ChangeSet) with
        removed := [item.ref], reindexed := movesOf before.length behind } ref
      (c.named? ref) (named? ⟨before ++ renumber before.length behind⟩ ref) := by
  have split : (before.map Item.ref ++ item.ref :: behind.map Item.ref).Nodup := by
    simpa [refs, whole] using distinct
  obtain ⟨_, afterwards, apart⟩ := List.nodup_append.mp split
  obtain ⟨notBehind, distinctBehind⟩ := List.nodup_cons.mp afterwards
  have moved := tells_renumber distinctBehind before.length ref
  unfold named?
  rw [whole, List.find?_append, List.find?_append]
  by_cases ahead : ref ∈ before.map Item.ref
  case pos =>
    -- What stands before the removed item stays, and no list names it.
    have found : (before.find? (·.ref = ref)).isSome := by simpa using ahead
    have notRemoved : ref ≠ item.ref := fun same =>
      apart ref ahead item.ref (by simp) same
    have notMoved : ∀ move ∈ movesOf before.length behind, move.item ≠ ref := fun move mem same =>
      apart ref ahead ref (by simp [same ▸ ref_of_mem_movesOf mem]) rfl
    rw [Option.or_of_isSome found, Option.or_of_isSome found]
    exact tells_same (by simpa [ChangeSet.Mentions, notRemoved] using notMoved) _
  case neg =>
    have notBefore : before.find? (·.ref = ref) = none := by simpa using ahead
    rw [notBefore, Option.none_or, Option.none_or]
    by_cases here : item.ref = ref
    case pos =>
      subst here
      have gone : (renumber before.length behind).find? (·.ref = item.ref) = none := by
        rw [← map_ref_renumber before.length behind] at notBehind
        simpa using notBehind
      rw [gone, List.find?_cons_of_pos (by simp)]
      exact ChangeSet.tells_remove item fun move mem same =>
        notBehind (same ▸ ref_of_mem_movesOf mem)
    case neg =>
      rw [List.find?_cons_of_neg (by simpa using here)]
      exact {
        added := moved.added
        removed := by
          have old := moved.removed
          simp only [List.mem_singleton, Ne.symm here, false_iff]
          simpa using old
        updated := moved.updated
        reindexed := moved.reindexed }

theorem Changes.tells (h : c.Changes new changes) (distinct : c.HasDistinctKeys) (ref : ItemRef) :
    changes.Tells ref (c.named? ref) (new.named? ref) := by
  cases h with
  | same => exact tells_same (by simp [ChangeSet.Mentions]) (c.named? ref)
  | @written key item later found inPlace differs =>
    have here : item.ref = kind.ref key := congrArg kind.ref (key_of_get? found)
    rw [named?_put (inPlace.key.trans (key_of_get? found))]
    split
    case isTrue named =>
      rw [named, named?_ref, found, here]
      exact ChangeSet.tells_update inPlace differs _
    case isFalse other =>
      refine tells_same ?_ _
      simp [ChangeSet.Mentions, ChangeSet.update, ChangeSet.empty, here, other]
  | @added item fresh =>
    by_cases here : item.ref = ref
    · subst here
      have absent : c.named? item.ref = none :=
        (named?_ref c item.key).trans (Option.not_isSome_iff_eq_none.mp fresh)
      have present : named? ⟨c.items ++ [item]⟩ item.ref = some item := by
        unfold named? at absent ⊢
        rw [List.find?_append, absent]
        simp
      rw [absent, present]
      exact ChangeSet.tells_add item _
    · have still : named? ⟨c.items ++ [item]⟩ ref = c.named? ref := by
        simp [named?, here]
      rw [still]
      refine tells_same ?_ _
      simp [ChangeSet.Mentions, ChangeSet.add, ChangeSet.empty, Ne.symm here]
  | removed whole => exact tells_removed whole (refs_nodup.mpr distinct) ref

theorem Changes.namesOnce (h : c.Changes new changes) (distinct : c.HasDistinctKeys) :
    changes.NamesOnce := by
  cases h with
  | same => exact ⟨.nil, .nil, .nil, .nil⟩
  | written => exact ⟨.nil, List.nodup_singleton _, .nil, .nil⟩
  | added => exact ⟨List.nodup_singleton _, .nil, .nil, .nil⟩
  | @removed before behind item whole =>
    have listed : (behind.map Item.ref).Sublist c.refs := by
      rw [refs, whole, List.map_append, List.map_cons]
      exact (List.sublist_cons_self _ _).trans (List.sublist_append_right _ _)
    exact ⟨.nil, .nil, List.nodup_singleton _,
      (refs_nodup.mpr distinct).sublist ((map_item_movesOf _ _).trans listed)⟩

/-- Keys that differ stay so. -/
theorem Changes.distinct (h : c.Changes new changes) (distinct : c.HasDistinctKeys) :
    new.HasDistinctKeys := by
  cases h with
  | same => exact distinct
  | written found inPlace _ =>
    unfold HasDistinctKeys
    rwa [keys_put c (inPlace.key.trans (key_of_get? found))]
  | @added item fresh =>
    have apart : item.key ∉ c.keys := mem_iff_keys.not.mp fresh
    show (List.map Item.key (c.items ++ [item])).Nodup
    rw [List.map_append]
    exact List.nodup_append.mpr ⟨distinct, List.nodup_singleton _, by
      rintro a ha b hb rfl
      exact apart (List.mem_singleton.mp hb ▸ ha)⟩
  | @removed before behind item whole =>
    show (List.map Item.key (before ++ renumber before.length behind)).Nodup
    rw [List.map_append, map_key_renumber, ← List.map_append]
    refine List.Nodup.sublist ?_ distinct
    rw [keys, whole]
    exact ((List.sublist_cons_self item behind).append_left before).map _

end Collection

namespace Case

/-- The item with a reference. -/
def item? (c : Case) (ref : ItemRef) : Option (Item ref.kind) := (c.collection ref.kind).named? ref

/-- In each collection the keys of the items differ from each other. -/
def HasDistinctKeys (c : Case) : Prop := ∀ kind, (c.collection kind).HasDistinctKeys

/-- The change set is the difference between the items of two cases. -/
structure IsDelta (c : Case) (changes : ChangeSet) (c' : Case) : Prop where
  tells : ∀ ref, changes.Tells ref (c.item? ref) (c'.item? ref)
  once : changes.NamesOnce
  unmentioned : ∀ ref, ¬changes.Mentions ref → c'.item? ref = c.item? ref

section
variable {c c' : Case} {changes : ChangeSet}

theorem Changes.isDelta (h : c.Changes c' changes) (distinct : c.HasDistinctKeys) :
    c.IsDelta changes c' := by
  obtain ⟨kind, changed, others⟩ := h
  have tells : ∀ ref, changes.Tells ref (c.item? ref) (c'.item? ref) := fun ref => by
    by_cases same : ref.kind = kind
    · subst same
      exact changed.tells (distinct _) ref
    · have still := changed.tells (distinct kind) ref
      rw [Collection.named?_of_kind_ne same, Collection.named?_of_kind_ne same] at still
      unfold item?
      rw [others ref.kind same]
      exact ChangeSet.tells_same still.not_mentions _
  exact ⟨tells, changed.namesOnce (distinct kind), fun ref => (tells ref).eq⟩

theorem Changes.distinct (h : c.Changes c' changes) (distinct : c.HasDistinctKeys) :
    c'.HasDistinctKeys := by
  obtain ⟨kind, changed, others⟩ := h
  intro other
  by_cases same : other = kind
  · subst same
    exact changed.distinct (distinct _)
  · rw [others other same]
    exact distinct other

/-- The change set of an operation that succeeds is the difference between the items before and
after it. The keys still differ from each other then. -/
theorem isDelta_of_apply {op : CaseOperation} {reply : CaseReply} (distinct : c.HasDistinctKeys)
    (done : (apply op).run c = (.ok reply, c')) :
    c.IsDelta reply.changeSet c' ∧ c'.HasDistinctKeys :=
  have changes := changes_of_apply done
  ⟨changes.isDelta distinct, changes.distinct distinct⟩

theorem Reachable.hasDistinctKeys (h : c.Reachable) : c.HasDistinctKeys := fun kind =>
  (h.isListed kind).distinct

end

end Case

/-- What taking the harbour out of the catalogue changes: the lighthouse moves up. -/
def Sample.harbourTaken : ChangeSet :=
  ⟨[], [], [⟨.metadata, "harbour"⟩], [⟨⟨.metadata, "lighthouse"⟩, 1, 0⟩]⟩

theorem Case.isDelta_of_removed_print :
    ∃ made, Case.draft Sample.prints = .ok made ∧
      let c := made.after Sample.printsListed
      let later := ((Case.apply Sample.removesHarbour).run c).2
      c.HasDistinctKeys ∧
        (Case.apply Sample.removesHarbour).run c = (.ok (.changes Sample.harbourTaken), later) ∧
        c.IsDelta Sample.harbourTaken later ∧ later.HasDistinctKeys := by
  have reachable := (Case.Reachable.draft (d := Sample.prints) rfl).after Sample.printsListed
  have distinct := reachable.hasDistinctKeys
  exact ⟨_, rfl, distinct, Action.eq_of_fst (by decide +kernel),
    @Case.isDelta_of_apply _ _ Sample.removesHarbour (.changes Sample.harbourTaken) distinct
      (Action.eq_of_fst (by decide +kernel))⟩

end CaseRegistry
