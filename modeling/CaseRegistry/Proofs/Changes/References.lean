import CaseRegistry.Proofs.Changes.Accounts

/-! Which items change sets name.

A change set comes from one operation, or it is put together from those of operations that follow
each other, in any grouping (`Stretch`). Whatever it names is the reference of an item that one of
the cases on the way holds (`Stretch.mentions`): of the operation that named it, the case before or
after. -/
namespace CaseRegistry

namespace ChangeSet

variable {c later : ChangeSet} {ref : ItemRef}

theorem not_mentions_empty (ref : ItemRef) : ¬(∅ : ChangeSet).Mentions ref := by
  simp [Mentions]

theorem map_item_chainMoves (moves later : List IndexMove) :
    (chainMoves moves later).map IndexMove.item =
      (later.map IndexMove.item).foldl listOnce (moves.map IndexMove.item) := by
  induction later generalizing moves with
  | nil => rfl
  | cons move rest ih =>
    show (chainMoves (prolong move moves) rest).map IndexMove.item = _
    rw [ih, map_item_prolong]
    rfl

/-- Merging names nothing that was not named. -/
theorem mentions_of_merge (h : (c.merge later).Mentions ref) : c.Mentions ref ∨ later.Mentions ref := by
  unfold Mentions at h ⊢
  rcases h with added | updated | removed | ⟨move, moved, rfl⟩
  · exact (mem_added_merge.mp added).1.imp .inl .inl
  · exact (mem_updated_merge.mp updated).imp (fun h => .inr (.inl h.1)) fun h => .inr (.inl h.1)
  · exact (mem_removed_merge.mp removed).imp (fun h => .inr (.inr (.inl h))) fun h => .inr (.inr (.inl h))
  · rw [reindexed_merge] at moved
    have listed := List.mem_map_of_mem (f := IndexMove.item) (List.mem_of_mem_filter moved)
    rw [map_item_chainMoves, mem_foldl_listOnce] at listed
    refine listed.imp (fun first => ?_) fun second => .inr (.inr (.inr (List.mem_map.mp second)))
    exact .inr (.inr (.inr (List.mem_map.mp ((List.filter_sublist.map _).subset first))))

end ChangeSet

/-! ### One operation -/

/-- An operation names items that are there before or after it. -/
theorem Collection.Changes.mentions {kind : ItemKind} {c new : Collection kind} {changes : ChangeSet}
    {ref : ItemRef} (h : c.Changes new changes) (named : changes.Mentions ref) :
    ref ∈ c.refs ∨ ref ∈ new.refs := by
  cases h with
  | same => exact absurd named (ChangeSet.not_mentions_empty ref)
  | written found _ _ =>
    obtain rfl : ref = _ := by simpa [ChangeSet.Mentions, ChangeSet.update, ChangeSet.empty] using named
    exact .inl (List.mem_map_of_mem (mem_of_get? found))
  | added _ =>
    obtain rfl : ref = _ := by simpa [ChangeSet.Mentions, ChangeSet.add, ChangeSet.empty] using named
    exact .inr (by simp [refs])
  | @removed before behind item whole =>
    have gone : ref = item.ref ∨ ∃ move ∈ movesOf before.length behind, move.item = ref := by
      simpa [ChangeSet.Mentions] using named
    refine .inl ?_
    rw [refs, whole, List.map_append, List.map_cons]
    rcases gone with rfl | ⟨move, moved, rfl⟩
    · simp
    · exact List.mem_append_right _ (List.mem_cons_of_mem _ (ref_of_mem_movesOf moved))

namespace Case

variable {a b c c' : Case} {changes later : ChangeSet} {ref : ItemRef}

/-- The case holds an item with the reference. -/
def Holds (c : Case) (ref : ItemRef) : Prop := ref ∈ (c.collection ref.kind).refs

theorem Changes.mentions (h : c.Changes c' changes) (named : changes.Mentions ref) :
    c.Holds ref ∨ c'.Holds ref := by
  obtain ⟨kind, changed, _⟩ := h
  have held := changed.mentions named
  obtain rfl : ref.kind = kind := held.elim Collection.kind_of_mem_refs Collection.kind_of_mem_refs
  exact held

/-! ### Operations that follow each other -/

/-- One case becomes another by operations, and a change set tells of it: that of one operation, or
those of two stretches merged. -/
inductive Stretch : Case → ChangeSet → Case → Prop where
  | rest (c : Case) : Stretch c ∅ c
  | operation {op : CaseOperation} {reply : CaseReply} {c c' : Case}
    (done : (apply op).run c = (.ok reply, c')) : Stretch c reply.changeSet c'
  | merged {a b c : Case} {changes later : ChangeSet} (first : Stretch a changes b)
    (second : Stretch b later c) : Stretch a (changes.merge later) c

/-- A case that is passed on a way that operations lead from one case to another. -/
def Between (a b c : Case) : Prop := (∃ before, Stretch a before b) ∧ ∃ after, Stretch b after c

theorem Stretch.id (h : Stretch a changes c) : c.id = a.id := by
  induction h with
  | rest c => rfl
  | @operation op reply c c' done =>
    have same := (apply_continues op c).id
    rwa [done] at same
  | merged _ _ ihFirst ihSecond => exact ihSecond.trans ihFirst

/-- What a change set names is held by a case on the way. -/
theorem Stretch.mentions (h : Stretch a changes c) (named : changes.Mentions ref) :
    ∃ b, Between a b c ∧ b.Holds ref := by
  induction h with
  | rest c => exact absurd named (ChangeSet.not_mentions_empty ref)
  | @operation op reply c c' done =>
    rcases (changes_of_apply done).mentions named with held | held
    · exact ⟨c, ⟨⟨_, .rest c⟩, _, .operation done⟩, held⟩
    · exact ⟨c', ⟨⟨_, .operation done⟩, _, .rest c'⟩, held⟩
  | @merged a b c changes later first second ihFirst ihSecond =>
    rcases ChangeSet.mentions_of_merge named with named | named
    · obtain ⟨d, ⟨⟨before, way⟩, after, on⟩, held⟩ := ihFirst named
      exact ⟨d, ⟨⟨before, way⟩, _, on.merged second⟩, held⟩
    · obtain ⟨d, ⟨⟨before, way⟩, after, on⟩, held⟩ := ihSecond named
      exact ⟨d, ⟨⟨_, first.merged way⟩, after, on⟩, held⟩

/-- Operations done one after the other, with their change sets merged on the way, are a stretch. -/
theorem Stretch.performFrom {operations : List CaseOperation} {total : ChangeSet}
    (h : Stretch a total b) (done : (performFrom total operations).run b = (.ok changes, c)) :
    Stretch a changes c := by
  induction operations generalizing b total with
  | nil =>
    cases done
    exact h
  | cons op rest ih =>
    obtain ⟨reply, d, first, others⟩ := Action.run_bind_eq_ok.mp done
    exact ih (h.merged (.operation first)) others

theorem stretch_of_perform {operations : List CaseOperation}
    (done : (perform operations).run c = (.ok changes, c')) : Stretch c changes c' :=
  (Stretch.rest c).performFrom done

end Case
end CaseRegistry
