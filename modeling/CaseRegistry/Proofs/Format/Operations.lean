import CaseRegistry.Proofs.Case.Runs
import CaseRegistry.Proofs.Changes.Delta
import CaseRegistry.Proofs.Changes.Merge
import CaseRegistry.Proofs.Format.Case

/-! Operations keep cases such that they can be written and read.

Whatever an operation writes it was given, but for the places of items. So a case that fits still
fits after an operation whose arguments do, as long as the places of its items do
(`Becomes.fits`). In a case that can come about the places are below the number of items, and that
number is one that a list can have (`Reachable.index_lt`). -/
namespace CaseRegistry

variable (limit : Nat)

def ItemStamp.Fits : ItemStamp → Prop
  | .added on | .acknowledged on => on.date.IsInRange
  | .fees charged => charged.Fits limit

/-- The arguments of an operation can be written and read. -/
def CaseOperation.Fits : CaseOperation → Prop
  | .accept on | .reject _ on | .setCreatedDate on | .close on | .makeVoid on
  | .voidAndReplace _ on => on.date.IsInRange
  | .setCreationFees fees => fees.Fits limit
  | .addCollectionItem _ on fees => on.date.IsInRange ∧ fees.Fits limit
  | .addItem kind _ payload => kind.Fits payload
  | .stampItem _ stamp _ => stamp.Fits limit
  | .addDeliveredCopy _ copy => copy.Fits
  | .submit | .rework | .preClose | .preVoid _ | .startIdentityVerification
  | .completeIdentityVerification _ | .addDelegate _ _ | .removeDelegate _ _ | .removeItem _ _ _
  | .performOnItem _ _ _ _ | .setRestrictedDelivery _ _ _ => True

namespace Item

variable {limit : Nat} {c : Case} {op : CaseOperation} {kind : ItemKind} {item later : Item kind}

theorem fits_new {index : Nat} {submitter : Identity} {mode : SubmissionMode} {payload : kind.Payload}
    (place : index < 2 ^ 64) (carried : kind.Fits payload) :
    (Item.new index submitter mode payload).Fits limit where
  index := place
  addedOn := nofun
  acknowledgedOn := nofun
  fees := nofun
  payload := carried

theorem Performed.fits {ctx : CaseContext} {actor : Identity} {step : ItemStep}
    (h : item.Performed ctx actor step later) (fits : item.Fits limit) : later.Fits limit := by
  cases h <;> exact { fits with }

theorem Stamped.fits {stamp : ItemStamp} (h : item.Stamped stamp later) (args : stamp.Fits limit)
    (fits : item.Fits limit) : later.Fits limit := by
  cases h with
  | same => exact fits
  | added => exact { fits with addedOn := fun _ same => Option.some.inj same ▸ args }
  | fees => exact { fits with fees := fun _ same => Option.some.inj same ▸ args }
  | acknowledged => exact { fits with acknowledgedOn := fun _ same => Option.some.inj same ▸ args }

theorem restrictDelivery_fits {file : Item .file} (restricted : Bool) (fits : file.Fits limit) :
    (Collection.restrictDelivery restricted file).1.Fits limit := by
  unfold Collection.restrictDelivery
  split
  · exact fits
  · exact { fits with payload := fits.payload }

theorem deliverCopy_fits {file later : Item .file} {copy : DeliveredCopy} {changes : ChangeSet}
    (h : Collection.deliverCopy copy file = .ok (later, changes)) (args : copy.Fits)
    (fits : file.Fits limit) : later.Fits limit := by
  simp only [Collection.deliverCopy, ensure_bind_eq_ok, pure_eq_ok] at h
  obtain ⟨_, _, _, same⟩ := h
  obtain rfl := (Prod.mk.inj same).1
  refine { fits with payload := ⟨fits.payload.1, ?_⟩ }
  exact List.forall_mem_append.2 ⟨fits.payload.2, List.forall_mem_singleton.2 args⟩

/-- An item at a place that fits. -/
theorem Becomes.fits (h : item.Becomes c op later) (args : op.Fits limit) (place : later.index < 2 ^ 64)
    (fits : item.Fits limit) : later.Fits limit := by
  cases h with
  | same => exact fits
  | moved => exact { fits with index := place }
  | performed _ performed => exact performed.fits fits
  | stamped stamped => exact stamped.fits args fits
  | restricted _ _ restrict => exact restrict ▸ restrictDelivery_fits _ fits
  | delivered _ deliver => exact deliverCopy_fits deliver args fits

end Item

namespace Case

variable {limit : Nat} {c c' made : Case} {op : CaseOperation} {ops : List CaseOperation}

/-- The place of every item is a number of 64 bits. -/
def IsPlaced (c : Case) : Prop := ∀ kind, ∀ item ∈ (c.collection kind).items, item.index < 2 ^ 64

theorem Becomes.items_fit (h : c.Becomes op c') (args : op.Fits limit) (placed : c'.IsPlaced)
    (fits : c.items.Fits limit) : c'.items.Fits limit := by
  intro kind later mem
  have place := placed kind later mem
  rcases h.origin mem with ⟨item, before, becomes⟩ | ⟨_, _, rfl, _, _, rfl⟩
  · exact becomes.fits args place (fits kind item before)
  · exact Item.fits_new place args

theorem Becomes.fits (h : c.Becomes op c') (args : op.Fits limit) (placed : c'.IsPlaced)
    (fits : c.Fits limit) : c'.Fits limit := by
  have items := h.items_fit args placed fits.items
  cases h with
  | accept => exact { fits with decisionOn := fun _ same => Option.some.inj same ▸ args }
  | reject => exact { fits with decisionOn := fun _ same => Option.some.inj same ▸ args }
  | rework => exact { fits with decisionOn := nofun }
  | create => exact { fits with createdOn := fun _ same => Option.some.inj same ▸ args }
  | createRequested =>
    exact { fits with
      createdOn := fun _ same => Option.some.inj same ▸ args
      decisionOn := fun _ same => Option.some.inj same ▸ args }
  | charge => exact { fits with creationFees := fun _ same => Option.some.inj same ▸ args }
  | close => exact { fits with closedOn := fun _ same => Option.some.inj same ▸ args }
  | preVoid =>
    refine { fits with voidInfo := fun _ same => ?_ }
    cases same
    exact nofun
  | makeVoid | voidAndReplace =>
    refine { fits with voidInfo := fun _ same => ?_ }
    cases same
    exact fun _ dated => Option.some.inj dated ▸ args
  | addEntry =>
    refine { fits with collectionItems := ?_ }
    exact List.forall_mem_append.2 ⟨fits.collectionItems, List.forall_mem_singleton.2 args⟩
  | addItem | removeItem | performOnItem | stampItem | setRestrictedDelivery | addDeliveredCopy =>
    exact { fits with items }
  | _ => exact { fits with }

/-! ### Runs -/

/-- Every list of items is one that can be counted in 64 bits. -/
def IsSmall (c : Case) : Prop := ∀ kind ∈ ItemKind.all, (c.collection kind).size ≤ 2 ^ 64

instance (c : Case) : Decidable c.IsSmall := inferInstanceAs (Decidable (∀ _ ∈ _, _))

theorem IsSmall.size_le (small : c.IsSmall) (kind : ItemKind) : (c.collection kind).size ≤ 2 ^ 64 :=
  small kind (by cases kind <;> decide)

/-- The items of a listing stand at places below their number. -/
theorem IsListed.isPlaced (listed : c.IsListed) (small : c.IsSmall) : c.IsPlaced := by
  intro kind item mem
  have place := (listed kind).index_eq mem
  have below := List.idxOf_lt_length_of_mem (List.mem_map_of_mem (f := Item.key) mem)
  have size := small.size_le kind
  simp only [Collection.keys, Collection.size, List.length_map] at place below size
  omega

theorem Fits.after (fits : c.Fits limit) (listed : c.IsListed) (args : ∀ op ∈ ops, op.Fits limit)
    (small : ∀ n ≤ ops.length, (c.after (ops.take n)).IsSmall) : (c.after ops).Fits limit := by
  induction ops generalizing c with
  | nil => exact fits
  | cons op rest ih =>
    obtain ⟨first, others⟩ := List.forall_mem_cons.1 args
    have becomes := apply_becomes op c
    have listed' := becomes.isListed listed
    have next : ((Case.apply op).run c).2.IsSmall := small 1 (by simp)
    -- From the next case on, a run of `n` operations is one of `n + 1` from here.
    refine ih (becomes.fits first (listed'.isPlaced next) fits) listed' others fun n le => ?_
    exact small (n + 1) (Nat.succ_le_succ le)

end Case

/-! ### Change sets -/

namespace ChangeSet

variable {c later : ChangeSet}

theorem fits_prolong {move : IndexMove} {moves : List IndexMove} (fits : move.Fits)
    (all : ∀ m ∈ moves, m.Fits) : ∀ m ∈ prolong move moves, m.Fits := by
  induction moves with
  | nil => exact List.forall_mem_singleton.2 fits
  | cons first rest ih =>
    obtain ⟨here, behind⟩ := List.forall_mem_cons.1 all
    rw [prolong]
    split
    · exact List.forall_mem_cons.2 ⟨⟨here.1, fits.2⟩, behind⟩
    · exact List.forall_mem_cons.2 ⟨here, ih behind⟩

theorem fits_chainMoves {moves after : List IndexMove} (fits : ∀ m ∈ moves, m.Fits)
    (all : ∀ m ∈ after, m.Fits) : ∀ m ∈ chainMoves moves after, m.Fits := by
  induction after generalizing moves with
  | nil => exact fits
  | cons move rest ih =>
    obtain ⟨first, others⟩ := List.forall_mem_cons.1 all
    exact ih (fits_prolong first fits) others

theorem Fits.merge (fits : c.Fits) (fits' : later.Fits) : (c.merge later).Fits := by
  intro move mem
  rw [reindexed_merge] at mem
  have kept : ∀ m ∈ c.reindexed.filter (·.item ∉ later.removed), m.Fits := fun m mem =>
    fits m (List.mem_of_mem_filter mem)
  exact fits_chainMoves kept fits' move (List.mem_of_mem_filter mem)

end ChangeSet

namespace Collection

variable {kind : ItemKind} {c new : Collection kind} {changes : ChangeSet}

theorem fits_movesOf {n : Nat} {items : List (Item kind)} (end_le : n + items.length ≤ 2 ^ 64)
    (places : ∀ item ∈ items, item.index < 2 ^ 64) : ∀ move ∈ movesOf n items, move.Fits := by
  induction items generalizing n with
  | nil => exact nofun
  | cons item rest ih =>
    obtain ⟨first, others⟩ := List.forall_mem_cons.1 places
    rw [List.length_cons] at end_le
    intro move mem
    rcases mem_movesOf_cons.1 mem with ⟨rfl, _⟩ | behind
    · exact ⟨first, by show n < _; omega⟩
    · exact ih (by omega) others move behind

theorem Changes.fits (h : c.Changes new changes) (size : c.size ≤ 2 ^ 64)
    (places : ∀ item ∈ c.items, item.index < 2 ^ 64) : changes.Fits := by
  cases h with
  | same | written | added => exact nofun
  | removed whole =>
    rw [whole] at places
    simp only [Collection.size, whole, List.length_append, List.length_cons] at size
    refine fits_movesOf (by omega) fun item mem => places item ?_
    exact List.mem_append_right _ (List.mem_cons_of_mem _ mem)

end Collection

/-- What an operation replies fits as soon as the places before it do. -/
theorem Case.fits_of_apply {c c' : Case} {op : CaseOperation} {reply : CaseReply} (small : c.IsSmall)
    (placed : c.IsPlaced) (ran : (Case.apply op).run c = (.ok reply, c')) : reply.changeSet.Fits := by
  obtain ⟨kind, changed, _⟩ := changes_of_apply ran
  exact changed.fits (small.size_le kind) (placed kind)

end CaseRegistry
