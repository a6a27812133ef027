import CaseRegistry.Proofs.Case.Consistency
import CaseRegistry.Proofs.Item.Listing

/-! What becomes of the items of a case.

An operation leaves the items of a kind, puts one of them into its place changed, adds one
or removes one (`Becomes.collection`). From these four follow what becomes of one item
(`Item.Becomes`): an item that is there before is found under its key afterwards, unless it
was removed (`Becomes.fate`), and an item that is there afterwards was there before or is
new (`Becomes.origin`). So what all operations keep of items is shown by going through
`Item.Becomes`. In every case that can come about the collections are listings
(`Reachable.isListed`). -/
namespace CaseRegistry

/-- What an operation on a case makes of an item that is in it before and after. -/
inductive Item.Becomes (c : Case) : {kind : ItemKind} → Item kind → CaseOperation → Item kind → Prop where
  | same {kind : ItemKind} (item : Item kind) (op : CaseOperation) : item.Becomes c op item
  /-- Another item was removed. -/
  | moved {kind : ItemKind} (item : Item kind) (n : Nat) {actor : Identity} {key : kind.Key} :
      item.Becomes c (.removeItem kind actor key) { item with index := n }
  | performed {kind : ItemKind} {item later : Item kind} {step : ItemStep} {actor : Identity}
      (editable : c.IsEditable) (performed : item.Performed c.context actor step later) :
      item.Becomes c (.performOnItem kind step actor item.key) later
  | stamped {kind : ItemKind} {item later : Item kind} {stamp : ItemStamp}
      (stamped : item.Stamped stamp later) : item.Becomes c (.stampItem kind stamp item.key) later
  | restricted {file : Item .file} {payload : FilePayload} {actor : Identity} {restricted : Bool}
      (byOwner : actor = c.owner) (valid : ¬c.IsVoid)
      (restrict : (Collection.restrictDelivery restricted file).1 = { file with payload }) :
      file.Becomes c (.setRestrictedDelivery actor file.key restricted) { file with payload }
  | delivered {file : Item .file} {payload : FilePayload} {copy : DeliveredCopy} {changes : ChangeSet}
      (valid : ¬c.IsVoid) (deliver : Collection.deliverCopy copy file = .ok ({ file with payload }, changes)) :
      file.Becomes c (.addDeliveredCopy file.key copy) { file with payload }

theorem Item.Becomes.continues {c : Case} {op : CaseOperation} {kind : ItemKind} {item later : Item kind}
    (h : item.Becomes c op later) : item.Continues later := by
  cases h with
  | same => exact .refl item
  | moved _ n => exact item.continues_reindexed n
  | performed _ performed => exact performed.continues
  | stamped stamped => exact stamped.continues
  | restricted _ _ restrict => exact restrict ▸ Item.restrictDelivery_continues _ _
  | delivered _ deliver => exact Item.deliverCopy_continues deliver

namespace Case

/-- What an operation makes of the items of a kind. -/
inductive CollectionBecomes (c : Case) (kind : ItemKind) : CaseOperation → Collection kind → Prop where
  | same (op : CaseOperation) : c.CollectionBecomes kind op (c.collection kind)
  | put {op : CaseOperation} {key : kind.Key} {item later : Item kind}
      (found : (c.collection kind).get? key = some item) (becomes : item.Becomes c op later)
      (inPlace : item.InPlace later) :
      c.CollectionBecomes kind op ((c.collection kind).put key later)
  | add {submitter : Identity} {payload : kind.Payload} {new : Collection kind} {changes : ChangeSet}
      (editable : c.IsEditable) (contributor : c.IsContributor submitter)
      (done : (c.collection kind).add submitter (c.submissionModeOf submitter) payload =
        .ok (new, changes)) :
      c.CollectionBecomes kind (.addItem kind submitter payload) new
  | remove {actor : Identity} {key : kind.Key} {new : Collection kind} {changes : ChangeSet}
      (editable : c.IsEditable)
      (done : (c.collection kind).remove key actor c.context = .ok (new, changes)) :
      c.CollectionBecomes kind (.removeItem kind actor key) new

section
variable {c c' : Case} {op : CaseOperation} {kind : ItemKind} {key : kind.Key} {item later : Item kind}

/-- A collection is put in the place of another, and those of the other kinds stay. -/
theorem collectionBecomes_withItems {new : Collection kind} (changed : c.CollectionBecomes kind op new)
    (other : ItemKind) : c.CollectionBecomes other op ((c.withItems kind new).collection other) := by
  by_cases same : other = kind
  · subst same
    rw [collection_withItems]
    exact changed
  · rw [collection_withItems_of_ne c new same]
    exact .same op

/-- A change to an item in its place. -/
theorem collectionBecomes_modify {f : Item kind → Except Error (Item kind × ChangeSet)}
    {new : Collection kind} {changes : ChangeSet}
    (hf : ∀ item later changes, item.key = key → f item = .ok (later, changes) →
      item.Becomes c op later ∧ item.InPlace later)
    (done : (c.collection kind).modify key f = .ok (new, changes)) : c.CollectionBecomes kind op new := by
  obtain ⟨item, later, found, changed, rfl⟩ := Collection.modify_eq_ok.mp done
  obtain ⟨becomes, inPlace⟩ := hf item later changes (Collection.key_of_get? found) changed
  exact .put found becomes inPlace

theorem Becomes.collection (h : c.Becomes op c') (kind : ItemKind) :
    c.CollectionBecomes kind op (c'.collection kind) := by
  cases h with
  | addItem editable contributor done =>
    exact collectionBecomes_withItems (.add editable contributor done) kind
  | removeItem editable done =>
    exact collectionBecomes_withItems (.remove editable done) kind
  | performOnItem editable done =>
    refine collectionBecomes_withItems (collectionBecomes_modify ?_ done) kind
    rintro item later changes rfl performed
    have performed := Item.performed_of_perform performed
    exact ⟨.performed editable performed, performed.inPlace⟩
  | @stampItem _ stamp _ _ _ done =>
    refine collectionBecomes_withItems (collectionBecomes_modify ?_ done) kind
    rintro item later changes rfl stamped
    have stamped : item.Stamped stamp later := by
      obtain ⟨rfl, _⟩ := Prod.mk.inj (Except.ok.inj stamped)
      exact item.stamped_stamp stamp
    exact ⟨.stamped stamped, stamped.inPlace⟩
  | @setRestrictedDelivery _ _ restricted _ _ byOwner valid done =>
    refine collectionBecomes_withItems (collectionBecomes_modify ?_ done) kind
    rintro file later changes rfl restrict
    obtain ⟨payload, sameHash, carries⟩ := Item.restrictDelivery_carries restricted file
    obtain rfl := carries.symm.trans (Prod.mk.inj (Except.ok.inj restrict)).1
    exact ⟨.restricted byOwner valid carries, Item.inPlace_carrying sameHash⟩
  | addDeliveredCopy valid done =>
    refine collectionBecomes_withItems (collectionBecomes_modify ?_ done) kind
    rintro file later changes rfl deliver
    obtain ⟨payload, sameHash, rfl⟩ := Item.deliverCopy_carries deliver
    exact ⟨.delivered valid deliver, Item.inPlace_carrying sameHash⟩
  | _ => exact .same _

/-! ### One item -/

/-- An item that is there before is found under its key afterwards, unless it is a draft and the
operation removes it. -/
theorem Becomes.fate (h : c.Becomes op c') (found : (c.collection kind).get? key = some item) :
    (∃ later, (c'.collection kind).get? key = some later ∧ item.Becomes c op later) ∨
      (∃ actor, op = .removeItem kind actor key) ∧ item.IsDraft := by
  have collection := h.collection kind
  generalize c'.collection kind = new at collection ⊢
  cases collection with
  | same => exact .inl ⟨item, found, .same item op⟩
  | @put _ other old later hold becomes inPlace =>
    by_cases same : key = other
    · subst same
      obtain rfl : old = item := Option.some.inj (hold.symm.trans found)
      exact .inl ⟨later, Collection.get?_put_self hold inPlace.key, becomes⟩
    · have kept : ((c.collection kind).put other later).get? key = some item := by
        rwa [Collection.get?_put _ (inPlace.key.trans (Collection.key_of_get? hold)), if_neg same]
      exact .inl ⟨item, kept, .same item op⟩
  | add editable contributor done =>
    obtain ⟨_, rfl, _⟩ := Collection.add_eq_ok.mp done
    exact .inl ⟨item, Collection.get?_add found, .same item _⟩
  | @remove actor other _ _ editable done =>
    by_cases same : key = other
    · subst same
      exact .inr ⟨⟨actor, rfl⟩, Collection.isDraft_of_remove done found⟩
    · obtain ⟨n, hn⟩ := Collection.get?_remove_of_ne done same found
      exact .inl ⟨_, hn, .moved item n⟩

/-- An item that is there afterwards was there before, or is a draft that was added. -/
theorem Becomes.origin (h : c.Becomes op c') (mem : later ∈ (c'.collection kind).items) :
    (∃ item ∈ (c.collection kind).items, item.Becomes c op later) ∨
      ∃ submitter payload, op = .addItem kind submitter payload ∧ c.IsContributor submitter ∧
        kind.keyOf payload ∉ c.collection kind ∧
        later = .new (c.collection kind).size submitter (c.submissionModeOf submitter) payload := by
  have collection := h.collection kind
  generalize c'.collection kind = new at collection mem
  cases collection with
  | same => exact .inl ⟨later, mem, .same later op⟩
  | put found becomes _ =>
    rcases Collection.mem_putFirst mem with rfl | mem
    · exact .inl ⟨_, Collection.mem_of_get? found, becomes⟩
    · exact .inl ⟨later, mem, .same later op⟩
  | @add submitter payload _ _ editable contributor done =>
    obtain ⟨fresh, rfl, _⟩ := Collection.add_eq_ok.mp done
    rcases List.mem_append.mp mem with mem | mem
    · exact .inl ⟨later, mem, .same later _⟩
    · exact .inr ⟨submitter, payload, rfl, contributor, fresh, List.mem_singleton.mp mem⟩
  | remove editable done =>
    obtain ⟨before, removed, behind, whole, _, _, _, _, rfl, _⟩ := Collection.remove_ok done
    rw [whole]
    rcases List.mem_append.mp mem with ahead | mem
    · exact .inl ⟨later, List.mem_append_left _ ahead, .same later _⟩
    · obtain ⟨item, hitem, n, rfl⟩ := Collection.mem_renumber mem
      exact .inl ⟨item, List.mem_append_right _ (List.mem_cons_of_mem _ hitem), .moved item n⟩

/-! ### Listings -/

/-- The items of each kind are a listing. -/
def IsListed (c : Case) : Prop := ∀ kind, (c.collection kind).IsListing

theorem Becomes.isListed (h : c.Becomes op c') (hc : c.IsListed) : c'.IsListed := by
  intro kind
  have listing := hc kind
  have collection := h.collection kind
  generalize c'.collection kind = new at collection ⊢
  cases collection with
  | same => exact listing
  | put found _ inPlace => exact listing.put found inPlace.key inPlace.index
  | add _ _ done => exact listing.add done
  | remove _ done => exact listing.remove done

end

/-- What holds of every case without items, and is kept by every operation, holds of every case that
can come about. -/
theorem Reachable.of_step {P : Case → Prop} (bare : ∀ c : Case, c.items = ∅ → P c)
    (step : ∀ c op, P c → P ((Case.apply op).run c).2) {c : Case} (h : c.Reachable) : P c := by
  induction h with
  | draft made | request made => exact bare _ (by rw [(build_eq_ok made).fresh])
  | openNew made =>
    simp only [Case.openNew, bind_eq_ok, pure_eq_ok] at made
    obtain ⟨c, made, rfl⟩ := made
    exact bare _ (by rw [(build_eq_ok made).fresh])
  | apply op _ ih => exact step _ op ih

theorem collection_of_bare {c : Case} (bare : c.items = ∅) (kind : ItemKind) : c.collection kind = ∅ := by
  unfold collection
  rw [bare]
  cases kind <;> rfl

theorem Reachable.isListed {c : Case} (h : c.Reachable) : c.IsListed :=
  h.of_step (fun _ bare kind => collection_of_bare bare kind ▸ Collection.isListing_empty)
    fun c op hc => (apply_becomes op c).isListed hc

/-- What holds of new items, and is kept by whatever is made of an item, holds of every item of every
case that can come about. -/
theorem Reachable.of_item {P : ∀ {kind : ItemKind}, Item kind → Prop}
    (new : ∀ {kind : ItemKind} (index : Nat) (submitter : Identity) (mode : SubmissionMode)
      (payload : kind.Payload), P (Item.new index submitter mode payload))
    (step : ∀ {c : Case} {op : CaseOperation} {kind : ItemKind} {item later : Item kind},
      item.Becomes c op later → P item → P later)
    {c : Case} (h : c.Reachable) (kind : ItemKind) : ∀ item ∈ (c.collection kind).items, P item := by
  refine h.of_step (P := fun c => ∀ kind, ∀ item ∈ (c.collection kind).items, P item) ?_ ?_ kind
  · intro c bare kind item mem
    rw [collection_of_bare bare] at mem
    cases mem
  · intro c op hc kind later mem
    rcases (apply_becomes op c).origin mem with ⟨item, hitem, becomes⟩ | ⟨_, _, _, _, _, rfl⟩
    · exact step becomes (hc kind item hitem)
    · exact new _ _ _ _

end Case
end CaseRegistry
