import CaseRegistry.Proofs.Changes.Patch

/-! Change sets merged in groups.

The change sets of a run are merged one by one, or those of its first part and those of the
rest are merged apart and the two results then. Both ways list the same updates, deletions
and moves, and the same insertions but for one kind of item: `merge` notes what its argument
inserts before what it deletes, so an item that the rest of the run deletes and inserts again
is not listed as inserted (`AgreesBut`). The two ways come to the same exactly if no such item
is there at the end (`merge_grouped`); with one there, a change set is not even given back by
merging it into the empty one (`insertion_lost`). -/
namespace CaseRegistry

namespace ChangeSet

variable {c later next one : ChangeSet} {ref : ItemRef}

/-! ### Moves -/

@[simp] theorem chain_none (move : Option IndexMove) : chain none move = move := by
  cases move <;> rfl

/-- Where a move begins and ends says which one it is, if it leads elsewhere. -/
theorem LeadsFrom.eq {i j : Nat} {move other : Option IndexMove} (h : LeadsFrom i j move)
    (h' : LeadsFrom i j other) (leads : ∀ x ∈ move, x.item = ref ∧ x.before ≠ x.after)
    (leads' : ∀ x ∈ other, x.item = ref ∧ x.before ≠ x.after) : move = other := by
  cases move with
  | none =>
    cases other with
    | none => rfl
    | some y => exact absurd (h'.1.trans (Eq.trans h h'.2.symm)) (leads' y rfl).2
  | some x =>
    cases other with
    | none => exact absurd (h.1.trans (Eq.trans h' h.2.symm)) (leads x rfl).2
    | some y =>
      obtain ⟨item, before, after⟩ := x
      obtain ⟨item', before', after'⟩ := y
      obtain rfl : item = ref := (leads _ rfl).1
      obtain rfl : item' = item := (leads' _ rfl).1
      obtain ⟨rfl, rfl⟩ := h
      obtain ⟨rfl, rfl⟩ := h'
      rfl

/-- Every move leads elsewhere. -/
def MovesElsewhere (c : ChangeSet) : Prop := ∀ move ∈ c.reindexed, move.before ≠ move.after

theorem movesElsewhere_merge (c later : ChangeSet) : (c.merge later).MovesElsewhere := by
  intro move mem
  rw [reindexed_merge] at mem
  simpa using (List.mem_filter.mp mem).2

theorem MovesElsewhere.leads (h : c.MovesElsewhere) :
    ∀ move ∈ move? c.reindexed ref, move.item = ref ∧ move.before ≠ move.after := by
  intro move found
  obtain ⟨mem, named⟩ := mem_of_move? found
  exact ⟨named, h move mem⟩

theorem MovesElsewhere.filter_move? (h : c.MovesElsewhere) :
    (move? c.reindexed ref).filter (fun move => move.before ≠ move.after) =
      move? c.reindexed ref := by
  cases found : move? c.reindexed ref with
  | none => rfl
  | some move => exact Option.filter_some_pos (by simpa using (h.leads move found).2)

theorem move?_merge_of_removed (once : (c.reindexed.map IndexMove.item).Nodup)
    (once' : (later.reindexed.map IndexMove.item).Nodup) (removed : ref ∈ later.removed) :
    move? (c.merge later).reindexed ref =
      (move? later.reindexed ref).filter fun move => move.before ≠ move.after := by
  have prior : (move? c.reindexed ref).filter (·.item ∉ later.removed) = none := by
    cases found : move? c.reindexed ref with
    | none => rfl
    | some move => exact Option.filter_some_neg (by simpa [(mem_of_move? found).2] using removed)
  rw [move?_merge once once', prior, chain_none]

theorem move?_merge_congr {ref : ItemRef} (once : (c.reindexed.map IndexMove.item).Nodup)
    (once' : (one.reindexed.map IndexMove.item).Nodup)
    (once'' : (later.reindexed.map IndexMove.item).Nodup)
    (same : move? c.reindexed ref = move? one.reindexed ref) :
    move? (c.merge later).reindexed ref = move? (one.merge later).reindexed ref := by
  rw [move?_merge once once'', move?_merge once' once'', same]

theorem mem_reindexed_iff (once : (c.reindexed.map IndexMove.item).Nodup) {move : IndexMove} :
    move ∈ c.reindexed ↔ move? c.reindexed move.item = some move :=
  ⟨fun mem => move?_of_mem once mem, fun found => (mem_of_move? found).1⟩

/-! ### Merging into nothing -/

theorem foldl_noteUpdated_of_fresh {refs : List ItemRef} (once : refs.Nodup)
    (fresh : ∀ ref ∈ refs, ref ∉ c.added ∧ ref ∉ c.removed ∧ ref ∉ c.updated) :
    (refs.foldl noteUpdated c).updated = c.updated ++ refs := by
  induction refs generalizing c with
  | nil => simp
  | cons ref rest ih =>
    obtain ⟨notBehind, once⟩ := List.nodup_cons.mp once
    have new : c.noteUpdated ref = { c with updated := c.updated ++ [ref] } :=
      if_neg (by simpa only [not_or] using fresh ref (by simp))
    rw [List.foldl_cons, new, ih once]
    · simp
    · intro other mem
      obtain ⟨notAdded, notRemoved, notUpdated⟩ := fresh other (List.mem_cons_of_mem ref mem)
      have ne : other ≠ ref := fun same => notBehind (same ▸ mem)
      exact ⟨notAdded, notRemoved, by simp [notUpdated, ne]⟩

theorem prolong_of_fresh {move : IndexMove} {moves : List IndexMove}
    (fresh : move.item ∉ moves.map IndexMove.item) : prolong move moves = moves ++ [move] := by
  induction moves with
  | nil => rfl
  | cons first rest ih =>
    rw [List.map_cons, List.mem_cons, not_or] at fresh
    rw [prolong, if_neg (Ne.symm fresh.1), ih fresh.2, List.cons_append]

theorem chainMoves_of_fresh {moves later : List IndexMove}
    (once : ((moves ++ later).map IndexMove.item).Nodup) :
    chainMoves moves later = moves ++ later := by
  induction later generalizing moves with
  | nil => simp [chainMoves]
  | cons move rest ih =>
    have fresh : move.item ∉ moves.map IndexMove.item := by
      rw [List.map_append, List.nodup_append] at once
      exact fun mem => once.2.2 _ mem move.item (by simp) rfl
    have moved : moves ++ move :: rest = (moves ++ [move]) ++ rest := by simp
    rw [moved] at once ⊢
    show chainMoves (prolong move moves) rest = _
    rw [prolong_of_fresh fresh, ih once]

theorem nodup_foldl_listOnce {refs : List ItemRef} (once : refs.Nodup) (items : List ItemRef) :
    (items.foldl listOnce refs).Nodup := by
  induction items generalizing refs with
  | nil => exact once
  | cons item rest ih => exact ih (nodup_listOnce once item)

theorem nodup_foldl_noteUpdated (once : c.updated.Nodup) (refs : List ItemRef) :
    (refs.foldl noteUpdated c).updated.Nodup := by
  induction refs generalizing c with
  | nil => exact once
  | cons ref rest ih =>
    refine ih ?_
    unfold noteUpdated
    split
    case isTrue => exact once
    case isFalse fresh =>
      exact List.nodup_append.mpr ⟨once, List.nodup_singleton ref, by grind⟩

theorem NamesOnce.merge (h : c.NamesOnce) (later : ChangeSet) : (c.merge later).NamesOnce where
  added := by
    rw [added_merge]
    exact (nodup_foldl_listOnce h.added _).filter _
  updated := by
    rw [merge_eq, foldl_noteMoved]
    refine nodup_foldl_noteUpdated ?_ later.updated
    rw [foldl_noteRemoved, foldl_noteAdded]
    exact h.updated.filter _
  removed := by
    rw [removed_merge]
    exact nodup_foldl_listOnce h.removed _
  reindexed := nodup_reindexed_merge h.reindexed

theorem namesOnce_mergeAll (sets : List ChangeSet) : (mergeAll sets).NamesOnce :=
  List.foldlRecOn sets ChangeSet.merge ⟨.nil, .nil, .nil, .nil⟩ fun _ once later _ =>
    once.merge later

theorem movesElsewhere_mergeAll (sets : List ChangeSet) : (mergeAll sets).MovesElsewhere :=
  List.foldlRecOn sets ChangeSet.merge (fun _ mem => nomatch mem) fun c _ later _ =>
    movesElsewhere_merge c later

theorem mergeAll_take_drop (sets : List ChangeSet) (k : Nat) :
    (sets.drop k).foldl ChangeSet.merge (mergeAll (sets.take k)) = mergeAll sets := by
  rw [mergeAll, ← List.foldl_append, List.take_append_drop]
  rfl

/-- Merging a change set into the empty one loses the insertions of items that it deletes too, and
nothing else. -/
theorem empty_merge (once : c.NamesOnce) (elsewhere : c.MovesElsewhere)
    (apart : ∀ ref ∈ c.updated, ref ∉ c.added ∧ ref ∉ c.removed) :
    (∅ : ChangeSet).merge c = { c with added := c.added.filter (· ∉ c.removed) } := by
  have inserted : c.added.foldl listOnce [] = c.added :=
    foldl_listOnce_of_fresh once.added fun _ _ => List.not_mem_nil
  have deleted : c.removed.foldl listOnce [] = c.removed :=
    foldl_listOnce_of_fresh once.removed fun _ _ => List.not_mem_nil
  have moved : chainMoves [] c.reindexed = c.reindexed :=
    chainMoves_of_fresh (by simpa using once.reindexed)
  have stayed : c.reindexed.filter (fun move => move.before ≠ move.after) = c.reindexed :=
    List.filter_eq_self.mpr fun move mem => by simpa using elsewhere move mem
  have begun : c.removed.foldl noteRemoved (c.added.foldl noteAdded ∅) =
      { (∅ : ChangeSet) with added := c.added.filter (· ∉ c.removed), removed := c.removed } := by
    simp [foldl_noteRemoved, foldl_noteAdded, inserted, deleted]
  rw [merge_eq, foldl_noteMoved, begun, foldl_noteUpdated, foldl_noteUpdated_of_fresh once.updated]
  · rw [dropStays]
    simp only [reindexed_empty, moved, stayed, updated_empty, List.nil_append]
  · intro ref updated
    obtain ⟨notAdded, notRemoved⟩ := apart ref updated
    simp [notAdded, notRemoved]

/-! ### Two ways to merge -/

/-- One way to merge agrees with another on all but the insertions of items that `later` deletes,
which it leaves out. -/
structure AgreesBut (grouped one later : ChangeSet) : Prop where
  added : ∀ ref, ref ∈ grouped.added ↔ ref ∈ one.added ∧ ref ∉ later.removed
  updated : ∀ ref, ref ∈ grouped.updated ↔ ref ∈ one.updated
  removed : ∀ ref, ref ∈ grouped.removed ↔ ref ∈ one.removed
  moves : ∀ ref, move? grouped.reindexed ref = move? one.reindexed ref

theorem agreesBut_empty (once : (c.reindexed.map IndexMove.item).Nodup)
    (elsewhere : c.MovesElsewhere) : (c.merge ∅).AgreesBut c ∅ where
  added ref := by simp [mem_added_merge]
  updated ref := by simp [mem_updated_merge]
  removed ref := by simp [mem_removed_merge]
  moves ref := by
    have none : ((∅ : ChangeSet).reindexed.map IndexMove.item).Nodup := .nil
    have stays : ref ∉ (∅ : ChangeSet).removed := List.not_mem_nil
    rw [move?_merge_of_stays once none stays]
    exact elsewhere.filter_move?

/-- One more change set, merged into the one or into the other, leaves the two ways in agreement. -/
theorem AgreesBut.merge (h : (c.merge later).AgreesBut one later)
    (fresh : ∀ ref ∈ later.updated, ref ∉ next.added)
    (moves : ∀ ref, move? (c.merge (later.merge next)).reindexed ref =
      move? (one.merge next).reindexed ref) :
    (c.merge (later.merge next)).AgreesBut (one.merge next) (later.merge next) where
  -- Where an item is listed afterwards is a matter of where it was listed before, in each of the sets.
  added ref := by
    have agrees := h.added ref
    simp only [mem_added_merge, mem_removed_merge] at agrees ⊢
    grind
  updated ref := by
    have added := h.added ref
    have removed := h.removed ref
    have updated := h.updated ref
    have fresh := fresh ref
    simp only [mem_updated_merge, mem_added_merge, mem_removed_merge] at added removed updated ⊢
    grind
  removed ref := by
    have agrees := h.removed ref
    simp only [mem_removed_merge] at agrees ⊢
    grind
  moves := moves

end ChangeSet

namespace Case

open ChangeSet (LeadsFrom chain_none mem_removed_merge mem_reindexed_iff move? move?_merge_congr
  move?_merge_of_removed move?_merge_of_stays movesElsewhere_merge nodup_reindexed_merge)

variable {a b c c' : Case} {changes later next one : ChangeSet} {ref : ItemRef}

/-- Three stretches in a row may be merged from the left or from the right, as far as moves go. -/
theorem Accounts.move?_merge_assoc {d : Case} (h : a.Accounts changes b) (h' : b.Accounts later c)
    (h'' : c.Accounts next d) (elsewhere : later.MovesElsewhere) (ref : ItemRef) :
    move? (changes.merge (later.merge next)).reindexed ref =
      move? ((changes.merge later).merge next).reindexed ref := by
  have once := h.movesOnce
  have once' := h'.movesOnce
  have once'' := h''.movesOnce
  have onceLeft : ((changes.merge later).reindexed.map IndexMove.item).Nodup :=
    nodup_reindexed_merge once
  have onceRight : ((later.merge next).reindexed.map IndexMove.item).Nodup :=
    nodup_reindexed_merge once'
  by_cases gone : ref ∈ next.removed
  case pos =>
    have gone' : ref ∈ (later.merge next).removed := mem_removed_merge.mpr (.inr gone)
    rw [move?_merge_of_removed once onceRight gone', move?_merge_of_removed once' once'' gone,
      move?_merge_of_removed onceLeft once'' gone, Option.filter_filter]
    simp
  by_cases earlier : ref ∈ later.removed
  case pos =>
    have gone' : ref ∈ (later.merge next).removed := mem_removed_merge.mpr (.inl earlier)
    rw [move?_merge_of_removed once onceRight gone', move?_merge_of_stays once' once'' gone,
      move?_merge_of_stays onceLeft once'' gone, move?_merge_of_removed once once' earlier,
      elsewhere.filter_move?, Option.filter_filter]
    simp
  have stays : ref ∉ (later.merge next).removed :=
    mem_removed_merge.not.mpr (not_or.mpr ⟨earlier, gone⟩)
  cases first : move? changes.reindexed ref with
  | none =>
    rw [move?_merge_of_stays once onceRight stays, move?_merge_of_stays once' once'' gone,
      move?_merge_of_stays onceLeft once'' gone, move?_merge_of_stays once once' earlier, first,
      chain_none, chain_none, elsewhere.filter_move?, Option.filter_filter]
    simp
  | some move =>
    -- The item is there from the end of the first stretch on, so every move begins where the one
    -- before it ended.
    obtain ⟨x, hx, after⟩ := h.placed ref move first
    obtain ⟨y, hy⟩ := Option.isSome_iff_exists.mp
      (h'.isSome_of_stays (by simp [Option.mem_def.mp hx]) earlier)
    obtain ⟨z, hz⟩ := Option.isSome_iff_exists.mp (h''.isSome_of_stays (by simp [hy]) gone)
    have begun : LeadsFrom move.before x.index (move? changes.reindexed ref) := by
      rw [first]
      exact ⟨rfl, after⟩
    have second := (h'.stayed ref earlier x hx y hy).move
    have third := (h''.stayed ref gone y hy z hz).move
    have right : LeadsFrom move.before z.index
        (move? (changes.merge (later.merge next)).reindexed ref) := by
      rw [move?_merge_of_stays once onceRight stays, move?_merge_of_stays once' once'' gone]
      exact (begun.chain (second.chain third).filter).filter
    have left : LeadsFrom move.before z.index
        (move? ((changes.merge later).merge next).reindexed ref) := by
      rw [move?_merge_of_stays onceLeft once'' gone, move?_merge_of_stays once once' earlier]
      exact ((begun.chain second).filter.chain third).filter
    exact right.eq left (movesElsewhere_merge _ _).leads (movesElsewhere_merge _ _).leads

/-- The rest of a run, merged apart or into what was merged before. -/
theorem agreesBut_of_performEach {ops : List CaseOperation} {sets : List ChangeSet}
    (h : a.Accounts changes b) (h' : b.Accounts later c) (distinct : c.HasDistinctKeys)
    (elsewhere : later.MovesElsewhere) (once : (one.reindexed.map IndexMove.item).Nodup)
    (agrees : (changes.merge later).AgreesBut one later)
    (done : (performEach ops).run c = (.ok sets, c')) :
    (changes.merge (sets.foldl ChangeSet.merge later)).AgreesBut (sets.foldl ChangeSet.merge one)
      (sets.foldl ChangeSet.merge later) := by
  induction ops generalizing c later one sets with
  | nil =>
    cases done
    exact agrees
  | cons op rest ih =>
    obtain ⟨reply, d, others, first, ran, rfl⟩ := performEach_cons done
    have changed := changes_of_apply first
    have distinct' := changed.distinct distinct
    have next := changed.accounts distinct
    have apart := (changed.isDelta distinct).apart
    simp only [List.foldl_cons]
    -- `one` has taken in what `later` has, so the next change set goes into both of them.
    refine ih (h'.merge next apart distinct distinct') distinct' (movesElsewhere_merge later _)
      (nodup_reindexed_merge once) (agrees.merge ?_ fun ref => ?_) ran
    · intro ref updated added
      have there := (h'.updated ref updated).1
      simp [next.fresh apart distinct' ref added] at there
    · rw [h.move?_merge_assoc h' next elsewhere]
      exact move?_merge_congr (nodup_reindexed_merge h.movesOnce) once next.movesOnce
        (agrees.moves ref)

/-- No insertion is among deleted items exactly if none of them is there at the end. -/
theorem Accounts.spares_added_iff (h : a.Accounts changes b) {refs : List ItemRef}
    (deleted : ∀ ref ∈ refs, ref ∈ changes.removed) :
    (∀ ref ∈ changes.added, ref ∉ refs) ↔ ∀ ref ∈ refs, b.item? ref = none := by
  have inserted : ∀ ref ∈ refs, (ref ∈ changes.added ↔ (b.item? ref).isSome) := fun ref mem => by
    rw [item?_isSome, h.listing]
    simp [deleted ref mem]
  refine ⟨fun spared ref mem => ?_, fun gone ref added mem => ?_⟩
  · rw [← Option.not_isSome_iff_eq_none, ← inserted ref mem]
    exact fun added => spared ref added mem
  · have there := (inserted ref mem).mp added
    simp [gone ref mem] at there

theorem performEach_take {ops : List CaseOperation} {sets : List ChangeSet}
    (done : (performEach ops).run c = (.ok sets, c')) (k : Nat) :
    ∃ mid, (performEach (ops.take k)).run c = (.ok (sets.take k), mid) ∧
      (performEach (ops.drop k)).run mid = (.ok (sets.drop k), c') := by
  induction ops generalizing c sets k with
  | nil =>
    cases done
    exact ⟨c', by simp only [List.take_nil]; rfl, by simp only [List.drop_nil]; rfl⟩
  | cons op rest ih =>
    cases k with
    | zero => exact ⟨c, rfl, done⟩
    | succ k =>
      obtain ⟨reply, b, others, first, ran, rfl⟩ := performEach_cons done
      obtain ⟨mid, ran, left⟩ := ih ran k
      refine ⟨mid, ?_, left⟩
      simp only [List.take_succ_cons, performEach, Action.run_bind_eq_ok]
      exact ⟨reply, b, first, _, mid, ran, rfl⟩

/-- The change sets of a run, merged in two groups, list the same updates, deletions and moves as
merged one by one. They list the same insertions but for those of items that the second group
deletes too, so they list all of them exactly if none of these items is there at the end. Merging
what the run changes in all into the empty set gives it back but for such insertions. -/
theorem merge_grouped {ops : List CaseOperation} {sets : List ChangeSet}
    (distinct : c.HasDistinctKeys) (done : (performEach ops).run c = (.ok sets, c')) (k : Nat) :
    let rest := ChangeSet.mergeAll (sets.drop k)
    let grouped := (ChangeSet.mergeAll (sets.take k)).merge rest
    let one := ChangeSet.mergeAll sets
    (∀ ref, ref ∈ grouped.added ↔ ref ∈ one.added ∧ ref ∉ rest.removed) ∧
      (∀ ref, ref ∈ grouped.updated ↔ ref ∈ one.updated) ∧
      (∀ ref, ref ∈ grouped.removed ↔ ref ∈ one.removed) ∧
      (∀ move, move ∈ grouped.reindexed ↔ move ∈ one.reindexed) ∧
      ((∀ ref, ref ∈ grouped.added ↔ ref ∈ one.added) ↔
        ∀ ref ∈ rest.removed, c'.item? ref = none) ∧
      (∅ : ChangeSet).merge one = { one with added := one.added.filter (· ∉ one.removed) } ∧
      ((∅ : ChangeSet).merge one = one ↔ ∀ ref ∈ one.removed, c'.item? ref = none) := by
  intro rest grouped one
  obtain ⟨mid, before, behind⟩ := performEach_take done k
  obtain ⟨first, distinct'⟩ := accounts_of_performEach distinct before
  have all : c.Accounts one c' := (accounts_of_performEach distinct done).1
  have agrees : grouped.AgreesBut one rest := by
    have agrees := agreesBut_of_performEach first (accounts_empty mid) distinct'
      (fun _ mem => nomatch mem) first.movesOnce
      (ChangeSet.agreesBut_empty first.movesOnce (ChangeSet.movesElsewhere_mergeAll _)) behind
    rwa [ChangeSet.mergeAll_take_drop] at agrees
  have deleted : ∀ ref ∈ rest.removed, ref ∈ one.removed := fun ref mem =>
    (agrees.removed ref).mp (mem_removed_merge.mpr (.inr mem))
  have emptied := ChangeSet.empty_merge (c := one) (ChangeSet.namesOnce_mergeAll sets)
    (ChangeSet.movesElsewhere_mergeAll sets) fun ref updated => (all.updated ref updated).2
  refine ⟨agrees.added, agrees.updated, agrees.removed, ?_, ?_, emptied, ?_⟩
  · intro move
    rw [mem_reindexed_iff (nodup_reindexed_merge first.movesOnce), mem_reindexed_iff all.movesOnce,
      agrees.moves]
  · rw [← all.spares_added_iff deleted]
    simp [agrees.added]
  · have same : { one with added := one.added.filter (· ∉ one.removed) } = one ↔
        one.added.filter (· ∉ one.removed) = one.added :=
      ⟨congrArg ChangeSet.added, fun kept => by rw [kept]⟩
    rw [emptied, same, List.filter_eq_self, ← all.spares_added_iff fun _ mem => mem]
    simp

end Case

/-- The harbour, deleted and inserted again while the catalogue is rearranged, is lost where the
change set of that is merged into the empty set, or the changes from the second step on into
those of the first. -/
theorem Case.insertion_lost :
    ∃ made, Case.draft Sample.prints = .ok made ∧
      let c := made.after Sample.printsListed
      let later := ((Case.performEach Sample.rearranges).run c).2
      let merged := ChangeSet.mergeAll Sample.rearranged
      let grouped := (ChangeSet.mergeAll (Sample.rearranged.take 1)).merge
        (ChangeSet.mergeAll (Sample.rearranged.drop 1))
      (∀ kind, (c.collection kind).HasDistinctKeys) ∧
        (Case.performEach Sample.rearranges).run c = (.ok Sample.rearranged, later) ∧
        (later.collection .metadata).keys = ["lighthouse", "harbour"] ∧
        merged.added = [⟨.metadata, "harbour"⟩] ∧ grouped.added = [] ∧
        ((∅ : ChangeSet).merge merged).added = [] := by
  refine ⟨_, rfl, ?_, Action.eq_of_fst (by decide +kernel), by decide +kernel, by decide +kernel,
    by decide +kernel, by decide +kernel⟩
  exact ((Case.Reachable.draft (d := Sample.prints) rfl).after Sample.printsListed).hasDistinctKeys

/-- With the last step in a group of its own, nothing is lost. -/
theorem Case.grouped_rearrangement :
    ∃ made, Case.draft Sample.prints = .ok made ∧
      let c := made.after Sample.printsListed
      let later := ((Case.performEach Sample.rearranges).run c).2
      let merged := ChangeSet.mergeAll Sample.rearranged
      let rest := ChangeSet.mergeAll (Sample.rearranged.drop 4)
      let grouped := (ChangeSet.mergeAll (Sample.rearranged.take 4)).merge rest
      c.HasDistinctKeys ∧
        (Case.performEach Sample.rearranges).run c = (.ok Sample.rearranged, later) ∧
        rest.removed = [⟨.metadata, "pier"⟩] ∧ later.item? ⟨.metadata, "pier"⟩ = none ∧
        (∀ ref, ref ∈ grouped.added ↔ ref ∈ merged.added) ∧
        (∀ ref, ref ∈ grouped.updated ↔ ref ∈ merged.updated) ∧
        (∀ ref, ref ∈ grouped.removed ↔ ref ∈ merged.removed) ∧
        (∀ move, move ∈ grouped.reindexed ↔ move ∈ merged.reindexed) := by
  have reachable := (Case.Reachable.draft (d := Sample.prints) rfl).after Sample.printsListed
  have distinct := reachable.hasDistinctKeys
  obtain ⟨_, updated, removed, moves, added, _⟩ := @Case.merge_grouped _ _ Sample.rearranges
    Sample.rearranged distinct (Action.eq_of_fst (by decide +kernel)) 4
  have deleted : (ChangeSet.mergeAll (Sample.rearranged.drop 4)).removed =
      [⟨.metadata, "pier"⟩] := by decide +kernel
  refine ⟨_, rfl, distinct, Action.eq_of_fst (by decide +kernel), deleted, by decide +kernel,
    added.mpr ?_, updated, removed, moves⟩
  rw [deleted]
  decide +kernel

end CaseRegistry
