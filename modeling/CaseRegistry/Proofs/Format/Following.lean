import CaseRegistry.Proofs.Format.Ledger
import CaseRegistry.Proofs.Format.Operations
import CaseRegistry.Proofs.Sync.Following

/-! Following the ledger keeps the stored cases such that they can be written and read.

What a stamp puts on a case are the fees of its operation and the time of its block, and it moves no
item (`Becomes.fits_of_stamp`). So where the blocks and the stored cases fit, the cases still fit
once the node has followed the blocks (`Follows.fits`). -/
namespace CaseRegistry

variable (limit : Nat)

def ChainStamp.Fits : ChainStamp → Prop
  | .created fees | .itemAdded _ _ fees | .collectionItemAdded _ fees => fees.Fits limit
  | .itemAcknowledged _ _ | .closed | .voided _ => True

/-- The fees that an operation names are below a limit. -/
structure LedgerOperation.ChargesBelow (op : LedgerOperation) : Prop where
  partialFee : ∀ fee ∈ op.partialFee, fee < limit
  storageFee : ∀ fee ∈ op.storageFee, fee < limit

def LedgerEvent.Fits (e : LedgerEvent) : Prop :=
  e.operation.ChargesBelow limit ∧ e.on.date.IsInRange

def Repository.Fits (r : Repository) : Prop := ∀ c ∈ r.cases, c.Fits limit

variable {limit : Nat}

/-! ### Stamps -/

namespace LedgerOperation

variable {op : LedgerOperation} {fees : Fees}

theorem fits_inclusionFees (h : op.inclusionFees = .ok fees) (below : op.ChargesBelow limit) :
    fees.Fits limit := by
  unfold inclusionFees at h
  split at h
  · next fee charged =>
    cases h
    exact ⟨below.partialFee fee charged, below.storageFee⟩
  · cases h

theorem fits_storageFees (h : op.storageFees = .ok fees) (below : op.ChargesBelow limit) :
    fees.Fits limit := by
  simp only [storageFees, bind_eq_ok, pure_eq_ok] at h
  obtain ⟨_, included, _, _, rfl⟩ := h
  exact fits_inclusionFees included below

end LedgerOperation

namespace ChainStamp

variable {op : LedgerOperation} {stamp : ChainStamp}

theorem fits_itemAddedBy {kind : ItemKind} (h : itemAddedBy op kind = .ok stamp)
    (below : op.ChargesBelow limit) : stamp.Fits limit := by
  simp only [itemAddedBy, bind_eq_ok, pure_eq_ok] at h
  obtain ⟨_, _, fees, charged, rfl⟩ := h
  cases kind with
  | file => exact LedgerOperation.fits_storageFees charged below
  | metadata | link => exact LedgerOperation.fits_inclusionFees charged below

theorem fits_ofOperation {kind : OperationKind} (h : ofOperation kind op = .ok (some stamp))
    (below : op.ChargesBelow limit) : stamp.Fits limit := by
  cases kind with
  | createIdentity | createTransaction | createCollection =>
    simp only [ofOperation, bind_eq_ok, pure_eq_ok, Option.some.injEq] at h
    obtain ⟨fees, charged, rfl⟩ := h
    exact LedgerOperation.fits_inclusionFees charged below
  | addFile | addMetadata | addLink =>
    obtain ⟨_, added, same⟩ := map_eq_ok.mp h
    exact Option.some.inj same ▸ fits_itemAddedBy added below
  | acknowledgeFile | acknowledgeMetadata | acknowledgeLink =>
    obtain ⟨_, acknowledged, same⟩ := map_eq_ok.mp h
    simp only [itemAcknowledgedBy, bind_eq_ok, pure_eq_ok] at acknowledged
    obtain ⟨_, _, rfl⟩ := acknowledged
    cases same
    trivial
  | close | makeVoid =>
    cases h
    trivial
  | makeVoidAndReplace =>
    simp only [ofOperation, bind_eq_ok, pure_eq_ok, Option.some.injEq] at h
    obtain ⟨_, _, rfl⟩ := h
    trivial
  | addCollectionItem =>
    simp only [ofOperation, bind_eq_ok, pure_eq_ok, Option.some.injEq] at h
    obtain ⟨_, _, fees, charged, rfl⟩ := h
    exact LedgerOperation.fits_inclusionFees charged below
  | nominateIssuer | dismissIssuer | setIssuerSelection | sponsor => cases h

theorem fits_operations {on : Timestamp} (fits : stamp.Fits limit) (inRange : on.date.IsInRange) :
    ∀ op ∈ stamp.operations on, op.Fits limit := by
  unfold operations
  split <;> simp only [List.forall_mem_cons]
  · exact ⟨inRange, fits, List.forall_mem_nil _⟩
  · exact ⟨inRange, fits, List.forall_mem_nil _⟩
  · exact ⟨inRange, List.forall_mem_nil _⟩
  · exact ⟨inRange, List.forall_mem_nil _⟩
  · exact ⟨inRange, List.forall_mem_nil _⟩
  · exact ⟨inRange, List.forall_mem_nil _⟩
  · exact ⟨⟨inRange, fits⟩, List.forall_mem_nil _⟩

end ChainStamp

/-! ### One case -/

namespace Case

variable {c c' : Case} {op : CaseOperation}

theorem Fits.isPlaced (fits : c.Fits limit) : c.IsPlaced := fun kind item mem =>
  (fits.items kind item mem).index

/-- The ledger moves no item. -/
theorem Becomes.isPlaced_of_stamp (h : c.Becomes op c') (stamp : op.IsStamp) (placed : c.IsPlaced) :
    c'.IsPlaced := by
  intro kind later mem
  rcases h.origin mem with ⟨item, before, becomes⟩ | ⟨_, _, rfl, _⟩
  · have place := placed kind item before
    cases becomes with
    | same => exact place
    | stamped stamped => exact stamped.inPlace.index ▸ place
    | moved | performed | restricted | delivered => cases stamp
  · cases stamp

theorem Becomes.fits_of_stamp (h : c.Becomes op c') (stamp : op.IsStamp) (args : op.Fits limit)
    (fits : c.Fits limit) : c'.Fits limit :=
  h.fits args (h.isPlaced_of_stamp stamp fits.isPlaced) fits

theorem performFrom_fits {operations : List CaseOperation} (stamps : ∀ op ∈ operations, op.IsStamp)
    (args : ∀ op ∈ operations, op.Fits limit) (total : ChangeSet) (fits : c.Fits limit) :
    ((performFrom total operations).run c).2.Fits limit := by
  induction operations generalizing c total with
  | nil => exact fits
  | cons op rest ih =>
    obtain ⟨stamp, stamps⟩ := List.forall_mem_cons.1 stamps
    obtain ⟨first, args⟩ := List.forall_mem_cons.1 args
    have next := (apply_becomes op c).fits_of_stamp stamp first fits
    -- A stamp that is refused ends the run, with the case as the stamps before it left it.
    rw [performFrom, Action.run_bind]
    obtain ⟨_ | reply, after, ran⟩ :
        ∃ result after, (Case.apply op).run c = (result, after) := ⟨_, _, rfl⟩
    · rw [ran] at next ⊢
      exact next
    · rw [ran] at next ⊢
      exact ih stamps args _ next

theorem put_fits {stamp : ChainStamp} {on : Timestamp} (h : stamp.put on c = .ok c')
    (args : stamp.Fits limit) (inRange : on.date.IsInRange) (fits : c.Fits limit) : c'.Fits limit := by
  obtain ⟨changes, ran⟩ := ChainStamp.put_eq_ok.mp h
  have kept := performFrom_fits (fun _ => ChainStamp.isStamp_of_mem)
    (ChainStamp.fits_operations args inRange) ∅ fits
  rwa [show (performFrom ∅ (stamp.operations on)).run c = (.ok changes, c') from ran] at kept

theorem putAll_fits {stamps : List (ChainStamp × Timestamp)} (h : c.putAll stamps = .ok c')
    (args : ∀ stamp ∈ stamps, stamp.1.Fits limit ∧ stamp.2.date.IsInRange) (fits : c.Fits limit) :
    c'.Fits limit := by
  induction stamps generalizing c with
  | nil => exact Except.ok.inj h ▸ fits
  | cons stamp rest ih =>
    rw [putAll_cons, bind_eq_ok] at h
    obtain ⟨next, put, h⟩ := h
    obtain ⟨first, others⟩ := List.forall_mem_cons.1 args
    exact ih h others (put_fits put first.1 first.2 fits)

theorem followed_fits {node : Identity} {events : List LedgerEvent}
    (h : c.followed node events = .ok c') (args : ∀ e ∈ events, e.Fits limit) (fits : c.Fits limit) :
    c'.Fits limit := by
  by_cases mine : c.owner = node
  · rw [followed_mine mine] at h
    refine putAll_fits h (fun stamp mem => ?_) fits
    obtain ⟨e, among, named⟩ := List.mem_filterMap.mp mem
    obtain ⟨stamped, on⟩ := LedgerEvent.stampFor_eq_some.mp named
    obtain ⟨kind, _, made⟩ := LedgerOperation.stamp?_eq_some.mp stamped
    exact ⟨ChainStamp.fits_ofOperation made (args e among).1, on ▸ (args e among).2⟩
  · rw [followed_other mine] at h
    exact Except.ok.inj h ▸ fits

end Case

/-! ### All stored cases -/

theorem LedgerBlock.fits_events {allowed : Json.Number → Prop} {depth : Nat} {b : LedgerBlock}
    (fits : b.Fits allowed limit depth) : ∀ e ∈ b.events, e.Fits limit := by
  intro e mem
  obtain ⟨op, among, rfl⟩ := List.mem_map.mp mem
  have below := fits.2.2 op among
  exact ⟨⟨below.partialFee, below.storageFee⟩, fits.2.1⟩

theorem Chain.fits_events {allowed : Json.Number → Prop} {depth : Nat} {chain : Chain}
    (fits : ∀ b ∈ chain.blocks, b.Fits allowed limit depth) (height n : Nat) :
    ∀ e ∈ chain.events height n, e.Fits limit := by
  intro e mem
  obtain ⟨h, _, mem⟩ := List.mem_flatMap.mp mem
  unfold blockAt at mem
  cases found : chain.block? h with
  | none =>
    rw [found] at mem
    cases mem
  | some b =>
    rw [found] at mem
    exact LedgerBlock.fits_events (fits b (List.mem_of_find?_eq_some found)) e mem

namespace Repository

variable {r r' : Repository} {node : Identity} {events : List LedgerEvent} {c : Case}

theorem mem_place {new : Case} {cases : List Case} (mem : c ∈ place new cases) :
    c = new ∨ c ∈ cases := by
  induction cases with
  | nil => exact .inl (List.mem_singleton.mp mem)
  | cons other rest ih =>
    rw [place] at mem
    split at mem
    · exact (List.mem_cons.mp mem).imp_right (List.mem_cons_of_mem other)
    · rcases List.mem_cons.mp mem with rfl | behind
      · exact .inr List.mem_cons_self
      · exact (ih behind).imp_right (List.mem_cons_of_mem other)

theorem nodup_ids_insert (distinct : r.ids.Nodup) (new : Case) : (r.insert new).ids.Nodup := by
  by_cases known : new.id ∈ r.ids
  · have same : (r.insert new).ids = r.ids := ids_place known
    rwa [same]
  · rw [ids_insert (find?_eq_none_iff.mpr known), ← List.concat_eq_append]
    exact .concat known distinct

/-- With one case for each identifier, every stored case is the one found under its own. -/
theorem find?_of_mem (distinct : r.ids.Nodup) (mem : c ∈ r.cases) : r.find? c.id = some c := by
  cases found : r.find? c.id with
  | none => exact absurd (List.mem_map_of_mem mem) (find?_eq_none_iff.mp found)
  | some other =>
    have same := List.inj_on_of_nodup_map distinct (List.mem_of_find?_eq_some found) mem
      (id_of_find? found)
    rw [same]

theorem Follows.fits (h : r.Follows node events r') (distinct : r.ids.Nodup)
    (args : ∀ e ∈ events, e.Fits limit) (fits : r.Fits limit) : r'.Fits limit := by
  intro c mem
  have found := find?_of_mem (h.ids ▸ distinct) mem
  cases before : r.find? c.id with
  | none => exact absurd (h.unknown before ▸ found) nofun
  | some old =>
    obtain ⟨new, followed, found'⟩ := h.cases c.id old before
    obtain rfl : new = c := Option.some.inj (found'.symm.trans found)
    exact Case.followed_fits followed args (fits old (List.mem_of_find?_eq_some before))

theorem fits_insert (fits : r.Fits limit) (new : c.Fits limit) : (r.insert c).Fits limit := by
  intro other mem
  rcases mem_place mem with rfl | before
  · exact new
  · exact fits other before

/-! ### Stores that are filled -/

theorem nodup_ids_insertAll (distinct : r.ids.Nodup) (cases : List Case) :
    (cases.foldl insert r).ids.Nodup := by
  induction cases generalizing r with
  | nil => exact distinct
  | cons c rest ih => exact ih (nodup_ids_insert distinct c)

theorem fits_insertAll {cases : List Case} (fits : r.Fits limit) (all : ∀ c ∈ cases, c.Fits limit) :
    (cases.foldl insert r).Fits limit := by
  induction cases generalizing r with
  | nil => exact fits
  | cons c rest ih =>
    obtain ⟨first, others⟩ := List.forall_mem_cons.1 all
    exact ih (fits_insert fits first) others

end Repository

theorem Chain.blocks_pushAll (chain : Chain) (blocks : List LedgerBlock) :
    (blocks.foldl push chain).blocks = blocks.reverse ++ chain.blocks := by
  induction blocks generalizing chain with
  | nil => rfl
  | cons b rest ih => simp [ih, push]

end CaseRegistry
