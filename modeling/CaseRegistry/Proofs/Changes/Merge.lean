import CaseRegistry.ChangeSet
import Mathlib.Data.List.Nodup

/-! What merging change sets lists.

Merging notes the insertions of the later set first, then its deletions, updates and moves. If
its insertions are new and none of them is deleted again, the result lists the insertions that
the later set does not delete, followed by the new ones (`added_merge`), the deletions of both
(`mem_removed_merge`), and the updates of both that no insertion or deletion covers
(`mem_updated_merge`). The move of an item goes from where its first move began to where its
last one ends (`move?_merge`), and is dropped if that is one place. -/
namespace CaseRegistry.ChangeSet

variable {c later : ChangeSet} {ref : ItemRef} {items : List ItemRef}

/-! ### Insertions and deletions -/

/-- A list with one more reference at its end, unless it is listed. -/
def listOnce (refs : List ItemRef) (ref : ItemRef) : List ItemRef :=
  if ref ∈ refs then refs else refs ++ [ref]

theorem mem_foldl_listOnce (refs items : List ItemRef) :
    ref ∈ items.foldl listOnce refs ↔ ref ∈ refs ∨ ref ∈ items := by
  induction items generalizing refs with
  | nil => simp
  | cons item rest ih =>
    rw [List.foldl_cons, ih, listOnce]
    split
    case isTrue listed => grind
    case isFalse => simp [or_assoc]

theorem foldl_listOnce_of_fresh {refs : List ItemRef} (once : items.Nodup)
    (fresh : ∀ item ∈ items, item ∉ refs) : items.foldl listOnce refs = refs ++ items := by
  induction items generalizing refs with
  | nil => simp
  | cons item rest ih =>
    obtain ⟨notBehind, once⟩ := List.nodup_cons.mp once
    rw [List.foldl_cons, listOnce, if_neg (fresh item (by simp)), ih once]
    · simp
    · intro other mem
      have ne : other ≠ item := fun same => notBehind (same ▸ mem)
      simpa [ne] using fresh other (List.mem_cons_of_mem item mem)

theorem foldl_noteAdded (c : ChangeSet) (items : List ItemRef) :
    items.foldl noteAdded c = { c with added := items.foldl listOnce c.added } := by
  induction items generalizing c with
  | nil => rfl
  | cons item rest ih =>
    have noted : c.noteAdded item = { c with added := listOnce c.added item } := by
      unfold noteAdded listOnce
      split <;> rfl
    rw [List.foldl_cons, noted, ih]
    rfl

theorem foldl_noteRemoved (c : ChangeSet) (items : List ItemRef) :
    items.foldl noteRemoved c =
      { added := c.added.filter (· ∉ items)
        updated := c.updated.filter (· ∉ items)
        removed := items.foldl listOnce c.removed
        reindexed := c.reindexed.filter (·.item ∉ items) } := by
  induction items generalizing c with
  | nil => simp
  | cons item rest ih =>
    rw [List.foldl_cons, ih]
    simp [noteRemoved, listOnce, List.filter_filter, Bool.and_comm]

/-! ### Updates -/

theorem noteUpdated_eq (c : ChangeSet) (item : ItemRef) :
    c.noteUpdated item = { c with updated := (c.noteUpdated item).updated } := by
  unfold noteUpdated
  split <;> rfl

/-- Noting updates keeps the other lists. -/
theorem foldl_noteUpdated (c : ChangeSet) (items : List ItemRef) :
    items.foldl noteUpdated c = { c with updated := (items.foldl noteUpdated c).updated } := by
  induction items generalizing c with
  | nil => rfl
  | cons item rest ih =>
    rw [List.foldl_cons, ih, noteUpdated_eq c item]

theorem mem_updated_foldl_noteUpdated (c : ChangeSet) (items : List ItemRef) :
    ref ∈ (items.foldl noteUpdated c).updated ↔
      ref ∈ c.updated ∨ ref ∈ items ∧ ref ∉ c.added ∧ ref ∉ c.removed := by
  induction items generalizing c with
  | nil => simp
  | cons item rest ih =>
    rw [List.foldl_cons, ih, noteUpdated]
    split
    case isTrue covered => grind
    case isFalse fresh => grind

/-! ### Moves -/

/-- The move of an item. -/
def move? (moves : List IndexMove) (ref : ItemRef) : Option IndexMove :=
  moves.find? (·.item = ref)

/-- A move after another of the same item, if there is one. -/
def follow (first : Option IndexMove) (move : IndexMove) : IndexMove :=
  match first with
  | some first => { first with after := move.after }
  | none => move

theorem after_follow (first : Option IndexMove) (move : IndexMove) :
    (follow first move).after = move.after := by
  cases first <;> rfl

/-- The move of an item over two stretches, if it has one in either. -/
def chain (first second : Option IndexMove) : Option IndexMove :=
  (second.map (follow first)).or first

/-- A move leads from one index to another; where there is none, they are the same. -/
def LeadsFrom (i j : Nat) : Option IndexMove → Prop
  | some move => move.before = i ∧ move.after = j
  | none => i = j

theorem LeadsFrom.chain {i j k : Nat} {first second : Option IndexMove} (h : LeadsFrom i j first)
    (h' : LeadsFrom j k second) : LeadsFrom i k (chain first second) := by
  cases second with
  | none =>
    obtain rfl : j = k := h'
    exact h
  | some last =>
    cases first with
    | none =>
      obtain rfl : i = j := h
      exact h'
    | some begin => exact ⟨h.1, h'.2⟩

/-- A move that leads back may be dropped. -/
theorem LeadsFrom.filter {i j : Nat} {move : Option IndexMove} (h : LeadsFrom i j move) :
    LeadsFrom i j (move.filter fun move => move.before ≠ move.after) := by
  cases move with
  | none => exact h
  | some move =>
    by_cases back : move.before = move.after
    · rw [Option.filter_some_neg (by simpa using back)]
      exact h.1.symm.trans (back.trans h.2)
    · rw [Option.filter_some_pos (by simpa using back)]
      exact h

theorem move?_prolong (move : IndexMove) (moves : List IndexMove) :
    move? (prolong move moves) ref =
      if move.item = ref then some (follow (move? moves ref) move) else move? moves ref := by
  induction moves with
  | nil => by_cases here : move.item = ref <;> simp [prolong, move?, here, follow]
  | cons first rest ih =>
    unfold move? at ih ⊢
    by_cases same : first.item = move.item
    · by_cases here : move.item = ref
      · simp [prolong, same, here, follow]
      · simp [prolong, same, here]
    · rw [prolong, if_neg same]
      by_cases here : first.item = ref
      · have other : move.item ≠ ref := fun h => same (here.trans h.symm)
        simp [here, other]
      · simp [here, ih]

theorem map_item_prolong (move : IndexMove) (moves : List IndexMove) :
    (prolong move moves).map IndexMove.item = listOnce (moves.map IndexMove.item) move.item := by
  induction moves with
  | nil => rfl
  | cons first rest ih =>
    by_cases same : first.item = move.item
    · simp [prolong, listOnce, same]
    · rw [prolong, if_neg same, List.map_cons, ih]
      unfold listOnce
      rw [List.map_cons]
      by_cases listed : move.item ∈ rest.map IndexMove.item
      · rw [if_pos listed, if_pos (List.mem_cons_of_mem _ listed)]
      · rw [if_neg listed, if_neg (by simp [Ne.symm same, List.mem_map.not.mp listed])]
        rfl

theorem nodup_listOnce {refs : List ItemRef} (once : refs.Nodup) (ref : ItemRef) :
    (listOnce refs ref).Nodup := by
  unfold listOnce
  split
  case isTrue => exact once
  case isFalse fresh => exact List.nodup_append.mpr ⟨once, List.nodup_singleton _, by grind⟩

/-- The moves of one list after those of another, one for each item. -/
def chainMoves (moves later : List IndexMove) : List IndexMove :=
  later.foldl (fun moves move => prolong move moves) moves

theorem foldl_noteMoved (c : ChangeSet) (moves : List IndexMove) :
    moves.foldl noteMoved c = { c with reindexed := chainMoves c.reindexed moves } := by
  induction moves generalizing c with
  | nil => rfl
  | cons move rest ih =>
    rw [List.foldl_cons, ih]
    rfl

theorem nodup_chainMoves {moves : List IndexMove} (once : (moves.map IndexMove.item).Nodup)
    (later : List IndexMove) : ((chainMoves moves later).map IndexMove.item).Nodup := by
  induction later generalizing moves with
  | nil => exact once
  | cons move rest ih => exact ih (map_item_prolong move moves ▸ nodup_listOnce once move.item)

/-- An item goes from where its first move began to where its last one ends. -/
theorem move?_chainMoves {moves later : List IndexMove} (once : (later.map IndexMove.item).Nodup) :
    move? (chainMoves moves later) ref = chain (move? moves ref) (move? later ref) := by
  induction later generalizing moves with
  | nil => rfl
  | cons move rest ih =>
    obtain ⟨notBehind, once⟩ := List.nodup_cons.mp once
    show move? (chainMoves (prolong move moves) rest) ref = _
    rw [ih once, move?_prolong]
    by_cases here : move.item = ref
    · subst here
      have only : move? rest move.item = none := by
        simpa [move?] using notBehind
      have found : move? (move :: rest) move.item = some move := by simp [move?]
      rw [if_pos rfl, only, found]
      rfl
    · have skipped : move? (move :: rest) ref = move? rest ref := by simp [move?, here]
      rw [if_neg here, skipped]

theorem mem_of_move? {moves : List IndexMove} {move : IndexMove}
    (found : move? moves ref = some move) : move ∈ moves ∧ move.item = ref :=
  ⟨List.mem_of_find?_eq_some found, by simpa using List.find?_some found⟩

theorem move?_eq_none {moves : List IndexMove} :
    move? moves ref = none ↔ ref ∉ moves.map IndexMove.item := by
  simp [move?]

theorem move?_of_mem {moves : List IndexMove} (once : (moves.map IndexMove.item).Nodup)
    {move : IndexMove} (mem : move ∈ moves) : move? moves move.item = some move := by
  cases found : move? moves move.item with
  | none => exact absurd (List.mem_map_of_mem mem) (move?_eq_none.mp found)
  | some other =>
    obtain ⟨listed, same⟩ := mem_of_move? found
    rw [List.inj_on_of_nodup_map once listed mem same]

theorem nodup_filter {moves : List IndexMove} (once : (moves.map IndexMove.item).Nodup)
    (p : IndexMove → Bool) : ((moves.filter p).map IndexMove.item).Nodup :=
  once.sublist (List.filter_sublist.map _)

theorem move?_filter {moves : List IndexMove} (once : (moves.map IndexMove.item).Nodup)
    (p : IndexMove → Bool) : move? (moves.filter p) ref = (move? moves ref).filter p := by
  cases found : move? moves ref with
  | none =>
    have absent := move?_eq_none.mp found
    exact move?_eq_none.mpr fun mem => absent ((List.filter_sublist.map _).subset mem)
  | some move =>
    obtain ⟨mem, rfl⟩ := mem_of_move? found
    by_cases keeps : p move
    · rw [move?_of_mem (nodup_filter once p) (List.mem_filter.mpr ⟨mem, keeps⟩),
        Option.filter_some_pos keeps]
    · rw [Option.filter_some_neg (by simpa using keeps)]
      refine move?_eq_none.mpr fun listed => ?_
      obtain ⟨other, mem', same⟩ := List.mem_map.mp listed
      obtain ⟨mem', kept⟩ := List.mem_filter.mp mem'
      rw [List.inj_on_of_nodup_map once mem' mem same] at kept
      exact keeps kept

/-! ### Merging -/

theorem merge_eq (c later : ChangeSet) :
    c.merge later =
      (later.reindexed.foldl noteMoved (later.updated.foldl noteUpdated
        (later.removed.foldl noteRemoved (later.added.foldl noteAdded c)))).dropStays := rfl

theorem removed_merge (c later : ChangeSet) :
    (c.merge later).removed = later.removed.foldl listOnce c.removed := by
  rw [merge_eq, foldl_noteMoved, foldl_noteUpdated, foldl_noteRemoved, foldl_noteAdded]
  rfl

theorem mem_removed_merge :
    ref ∈ (c.merge later).removed ↔ ref ∈ c.removed ∨ ref ∈ later.removed := by
  rw [removed_merge, mem_foldl_listOnce]

theorem added_merge (c later : ChangeSet) :
    (c.merge later).added = (later.added.foldl listOnce c.added).filter (· ∉ later.removed) := by
  rw [merge_eq, foldl_noteMoved, foldl_noteUpdated, foldl_noteRemoved, foldl_noteAdded]
  rfl

theorem mem_added_merge :
    ref ∈ (c.merge later).added ↔ (ref ∈ c.added ∨ ref ∈ later.added) ∧ ref ∉ later.removed := by
  rw [added_merge, List.mem_filter, mem_foldl_listOnce]
  simp

theorem reindexed_merge (c later : ChangeSet) :
    (c.merge later).reindexed =
      (chainMoves (c.reindexed.filter (·.item ∉ later.removed)) later.reindexed).filter
        fun move => move.before ≠ move.after := by
  rw [merge_eq, foldl_noteMoved, foldl_noteUpdated, foldl_noteRemoved, foldl_noteAdded]
  rfl

theorem nodup_reindexed_merge (once : (c.reindexed.map IndexMove.item).Nodup) :
    ((c.merge later).reindexed.map IndexMove.item).Nodup := by
  rw [reindexed_merge]
  exact nodup_filter (nodup_chainMoves (nodup_filter once _) _) _

/-- The move of an item in a merged set goes on from an earlier one, unless the item was deleted
in between; it is dropped if it leads back. -/
theorem move?_merge (once : (c.reindexed.map IndexMove.item).Nodup)
    (once' : (later.reindexed.map IndexMove.item).Nodup) :
    move? (c.merge later).reindexed ref =
      (chain ((move? c.reindexed ref).filter (·.item ∉ later.removed))
        (move? later.reindexed ref)).filter fun move => move.before ≠ move.after := by
  rw [reindexed_merge, move?_filter (nodup_chainMoves (nodup_filter once _) _),
    move?_chainMoves once', move?_filter once]

theorem move?_merge_of_stays (once : (c.reindexed.map IndexMove.item).Nodup)
    (once' : (later.reindexed.map IndexMove.item).Nodup) (stays : ref ∉ later.removed) :
    move? (c.merge later).reindexed ref =
      (chain (move? c.reindexed ref) (move? later.reindexed ref)).filter
        fun move => move.before ≠ move.after := by
  have prior : (move? c.reindexed ref).filter (·.item ∉ later.removed) =
      move? c.reindexed ref := by
    cases found : move? c.reindexed ref with
    | none => rfl
    | some move => exact Option.filter_some_pos (by simpa [(mem_of_move? found).2] using stays)
  rw [move?_merge once once', prior]

theorem mem_updated_merge :
    ref ∈ (c.merge later).updated ↔
      ref ∈ c.updated ∧ ref ∉ later.removed ∨
        ref ∈ later.updated ∧ ref ∉ (c.merge later).added ∧ ref ∉ (c.merge later).removed := by
  rw [added_merge, removed_merge, merge_eq, foldl_noteMoved]
  show ref ∈ (later.updated.foldl noteUpdated _).updated ↔ _
  rw [mem_updated_foldl_noteUpdated, foldl_noteRemoved, foldl_noteAdded]
  simp

end CaseRegistry.ChangeSet
