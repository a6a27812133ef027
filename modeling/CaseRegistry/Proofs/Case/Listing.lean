import CaseRegistry.Proofs.Case.Runs

/-! How the items of a case are listed.

In every case that can come about, the items of a kind have different keys and stand under
the indexes 0, 1, 2 and so on (`reachable_numbered`). Only adding and removing items of a
kind changes their listing (`Relists`): what is added comes last, under the next index, and
what is left of a removal stays in its order with nothing changed but the indexes. -/
namespace CaseRegistry

/-- The operation adds or removes an item of a kind. -/
def CaseOperation.Resizes (kind : ItemKind) (op : CaseOperation) : Prop :=
  (∃ submitter payload, op = .addItem kind submitter payload) ∨
    ∃ actor key, op = .removeItem kind actor key

namespace Case

/-- What an operation does to the listing of the items of a kind. -/
structure Relists (c : Case) (op : CaseOperation) (kind : ItemKind) (later : Case) : Prop where
  /-- What is added stands at the end under the next index; all other items stay as they are. -/
  addition : ∀ submitter payload, op = .addItem kind submitter payload → c.Succeeds op →
    (later.collection kind).items = (c.collection kind).items ++
      [.new (c.collection kind).size submitter (c.submissionModeOf submitter) payload]
  /-- What is left stays in its order, and keeps all but its index. -/
  removal : ∀ actor key, op = .removeItem kind actor key → c.Succeeds op →
    ∃ before item behind, (c.collection kind).items = before ++ item :: behind ∧ item.key = key ∧
      (later.collection kind).items.map Item.record = (before ++ behind).map Item.record
  /-- Items of another kind come and go without touching those of this kind. -/
  elsewhere : ∀ other, other ≠ kind → op.Resizes other → later.collection kind = c.collection kind
  others : ¬(op.Resizes kind ∧ c.Succeeds op) →
    (later.collection kind).keys = (c.collection kind).keys ∧
      (later.collection kind).indexes = (c.collection kind).indexes

section
variable {c c' : Case} {op : CaseOperation} {kind : ItemKind}

theorem run_addItem_of_succeeds {submitter : Identity} {payload : kind.Payload}
    (h : c.Succeeds (.addItem kind submitter payload)) :
    ∃ new changes, (c.collection kind).add submitter (c.submissionModeOf submitter) payload =
        .ok (new, changes) ∧
      ((Case.apply (.addItem kind submitter payload)).run c).2 = c.withItems kind new := by
  obtain ⟨after, changes, done⟩ := isOk_withChanges.mp h
  have next : ((Case.apply (.addItem kind submitter payload)).run c).2 = after := snd_withChanges done
  simp only [addItem, bind_eq_ok, onCollection_eq_ok] at done
  obtain ⟨_, _, _, _, new, added, rfl⟩ := done
  exact ⟨new, changes, added, next⟩

theorem run_removeItem_of_succeeds {actor : Identity} {key : kind.Key}
    (h : c.Succeeds (.removeItem kind actor key)) :
    ∃ new changes, (c.collection kind).remove key actor c.context = .ok (new, changes) ∧
      ((Case.apply (.removeItem kind actor key)).run c).2 = c.withItems kind new := by
  obtain ⟨after, changes, done⟩ := isOk_withChanges.mp h
  have next : ((Case.apply (.removeItem kind actor key)).run c).2 = after := snd_withChanges done
  simp only [removeItem, bind_eq_ok, onCollection_eq_ok] at done
  obtain ⟨_, _, new, removed, rfl⟩ := done
  exact ⟨new, changes, removed, next⟩

theorem collection_of_resizes {other : ItemKind} (ne : other ≠ kind) (resizes : op.Resizes other) :
    ((Case.apply op).run c).2.collection kind = c.collection kind := by
  by_cases success : c.Succeeds op
  · rcases resizes with ⟨submitter, payload, rfl⟩ | ⟨actor, key, rfl⟩
    · obtain ⟨new, _, _, next⟩ := run_addItem_of_succeeds success
      rw [next, collection_withItems_of_ne c new ne.symm]
    · obtain ⟨new, _, _, next⟩ := run_removeItem_of_succeeds success
      rw [next, collection_withItems_of_ne c new ne.symm]
  · rw [apply_of_not_succeeds success]

theorem CollectionBecomes.listing {new : Collection kind} (h : c.CollectionBecomes kind op new)
    (same : ¬op.Resizes kind) :
    new.keys = (c.collection kind).keys ∧ new.indexes = (c.collection kind).indexes := by
  cases h with
  | same => exact ⟨rfl, rfl⟩
  | put found _ inPlace =>
    exact ⟨Collection.keys_put _ (inPlace.key.trans (Collection.key_of_get? found)),
      Collection.indexes_put found inPlace.index⟩
  | add => exact absurd (.inl ⟨_, _, rfl⟩) same
  | remove => exact absurd (.inr ⟨_, _, rfl⟩) same

/-- Whatever the case, an operation keeps to this. -/
theorem relists_apply (c : Case) (op : CaseOperation) (kind : ItemKind) :
    c.Relists op kind ((Case.apply op).run c).2 where
  addition := by
    rintro submitter payload rfl success
    obtain ⟨new, changes, added, next⟩ := run_addItem_of_succeeds success
    obtain ⟨_, rfl, _⟩ := Collection.add_eq_ok.mp added
    rw [next, collection_withItems]
  removal := by
    rintro actor key rfl success
    obtain ⟨new, changes, removed, next⟩ := run_removeItem_of_succeeds success
    obtain ⟨before, item, behind, whole, _, same, _, _, rfl, _⟩ := Collection.remove_ok removed
    refine ⟨before, item, behind, whole, same, ?_⟩
    rw [next, collection_withItems, List.map_append, List.map_append, Collection.map_record_renumber]
  elsewhere _ ne resizes := collection_of_resizes ne resizes
  others spared := by
    by_cases success : c.Succeeds op
    · exact ((apply_becomes op c).collection kind).listing fun resizes => spared ⟨resizes, success⟩
    · rw [apply_of_not_succeeds success]
      exact ⟨rfl, rfl⟩

end

/-- In every case that can come about, the items of a kind have different keys and each has the
place it is listed at as its index; adding, removing and all other operations change that listing
as `Relists` says. -/
theorem reachable_numbered {c : Case} (h : c.Reachable) (kind : ItemKind) :
    (c.collection kind).keys.Nodup ∧
      (c.collection kind).indexes = List.range (c.collection kind).size ∧
      ∀ op, c.Relists op kind ((Case.apply op).run c).2 :=
  ⟨(h.isListed kind).distinct, Collection.isContiguous_iff.mp (h.isListed kind).contiguous,
    fun op => relists_apply c op kind⟩

end Case

/-! ### A catalogue from which a print is taken -/

namespace Sample

/-- Three prints are listed, and the second is taken out. -/
def printsListed : List CaseOperation :=
  [.addItem .metadata ⟨"artist"⟩ ⟨"harbour", "1921"⟩, .addItem .metadata ⟨"gallery"⟩ ⟨"bridge", "1930"⟩,
    .addItem .metadata ⟨"artist"⟩ ⟨"lighthouse", "1934"⟩, .removeItem .metadata ⟨"gallery"⟩ "bridge"]

def addsPier : CaseOperation := .addItem .metadata ⟨"artist"⟩ ⟨"pier", "1940"⟩

def removesHarbour : CaseOperation := .removeItem .metadata ⟨"artist"⟩ "harbour"

end Sample

/-- A new print comes third, since the second of three was taken out; without the first, the other moves
up. -/
theorem Case.numbered_of_prints :
    ∃ made, Case.draft Sample.prints = .ok made ∧
      let c := made.after Sample.printsListed
      let more := ((Case.apply Sample.addsPier).run c).2
      let fewer := ((Case.apply Sample.removesHarbour).run c).2
      c.Reachable ∧ (c.collection .metadata).keys = ["harbour", "lighthouse"] ∧
        (c.collection .metadata).indexes = List.range (c.collection .metadata).size ∧
        (∃ item, item.index = 2 ∧
          (more.collection .metadata).items = (c.collection .metadata).items ++ [item]) ∧
        (fewer.collection .metadata).items.map (fun item => (item.key, item.index)) = [("lighthouse", 0)] ∧
        c.Relists Sample.removesHarbour .metadata fewer := by
  have reachable := (Case.Reachable.draft (d := Sample.prints) rfl).after Sample.printsListed
  obtain ⟨_, contiguous, relists⟩ := Case.reachable_numbered reachable .metadata
  have added := (relists Sample.addsPier).addition ⟨"artist"⟩ ⟨"pier", "1940"⟩ rfl (by decide +kernel)
  exact ⟨_, rfl, reachable, by decide +kernel, contiguous, ⟨_, by decide +kernel, added⟩, by decide +kernel,
    relists Sample.removesHarbour⟩

end CaseRegistry
