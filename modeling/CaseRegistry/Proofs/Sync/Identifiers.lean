import CaseRegistry.Proofs.Changes.References
import CaseRegistry.Proofs.Sync.Cycle
import CaseRegistry.Proofs.Text.Identifiers

/-! Identifiers in the arguments of operations.

An operation gives identifiers as texts, and only what a text spells counts: operations whose
arguments spell the same identifiers are dispatched alike, whatever the stores are
(`Alike.dispatch`). Change sets give them as texts again, in the one form in which identifiers are
written (`Item.ref_link`). A text that spells nothing is an error as soon as it is read, which is
before anything is done (`Memory.dispatch_misspelled_case`, `Memory.dispatch_misspelled_argument`).
`ids_read_by_value` sums this up. -/
namespace CaseRegistry

/-! ### Arguments -/

namespace Json

/-- The field with another value if it has the name. -/
def putUnder (name : String) (value : Json) (field : String × Json) : String × Json :=
  if field.1 = name then (name, value) else field

/-- An object with another value under one of its names, wherever it has the name. -/
def replaceField (j : Json) (name : String) (value : Json) : Json :=
  match j with
  | object fields => object (fields.map (putUnder name value))
  | _ => j

theorem fst_putUnder (name : String) (value : Json) (field : String × Json) :
    (putUnder name value field).1 = field.1 := by
  unfold putUnder
  split
  case isTrue same => exact same.symm
  case isFalse => rfl

theorem get?_object_map (name other : String) (value : Json) (fields : List (String × Json)) :
    (object (fields.map (putUnder name value))).get? other =
      (fields.findRev? (·.1 = other)).map fun field => (putUnder name value field).2 := by
  simp [get?, List.findRev?_eq_find?_reverse, ← List.map_reverse, List.find?_map, Function.comp_def,
    fst_putUnder]

theorem get?_replaceField_self {j old : Json} {name : String} (found : j.get? name = some old)
    (value : Json) : (j.replaceField name value).get? name = some value := by
  cases j with
  | object fields =>
    obtain ⟨field, first, _⟩ := Option.map_eq_some_iff.mp found
    have named : field.1 = name := by
      rw [List.findRev?_eq_find?_reverse] at first
      simpa using List.find?_some first
    rw [replaceField, get?_object_map, first, Option.map_some, putUnder, if_pos named]
  | _ => cases found

theorem get?_replaceField_of_ne {name other : String} (ne : other ≠ name) (j value : Json) :
    (j.replaceField name value).get? other = j.get? other := by
  cases j with
  | object fields =>
    rw [replaceField, get?_object_map, get?]
    cases first : fields.findRev? (·.1 = other) with
    | none => rfl
    | some field =>
      have named : field.1 = other := by
        rw [List.findRev?_eq_find?_reverse] at first
        simpa using List.find?_some first
      rw [Option.map_some, Option.map_some, putUnder, if_neg (named ▸ ne)]
  | _ => rfl

theorem bind_string?_eq_some_iff {found : Option Json} {text : String} :
    found.bind string? = some text ↔ found = some (.string text) := by
  cases found with
  | none => simp
  | some j => cases j <;> simp [string?]

end Json

namespace LedgerOperation

/-- The operation with another argument under a name. -/
def replaceArg (op : LedgerOperation) (name : String) (value : Json) : LedgerOperation :=
  { op with args := op.args.replaceField name value }

/-- The names of the arguments that are identifiers. -/
def idArguments : List String := ["loc_id", "target", "replacer_id"]

/-- The text under a name spells an identifier. -/
def Spells (op : LedgerOperation) (name : String) (id : CaseId) : Prop :=
  ∃ text, op.args.get? name = some (.string text) ∧ id.HasSpelling text.toList

/-- What is wrong with an argument that spells no identifier. -/
def faultOf (op : LedgerOperation) (name : String) : ArgumentFault :=
  match (op.args.get? name).bind Json.string? with
  | some _ => .invalid name
  | none => .missing name

variable {op op' : LedgerOperation} {name : String} {id : CaseId}

theorem textArg_eq_ok_iff {text : String} :
    op.textArg name = .ok text ↔ op.args.get? name = some (.string text) := by
  unfold textArg
  rw [← Json.bind_string?_eq_some_iff]
  split
  case h_1 found => simp [found]
  case h_2 missing => simp [missing]

theorem caseIdArg_eq_ok_iff : op.caseIdArg name = .ok id ↔ op.Spells name id := by
  unfold caseIdArg Spells
  simp only [bind_eq_ok, textArg_eq_ok_iff, ← CaseId.ofString?_eq_some_iff]
  refine exists_congr fun text => and_congr_right fun _ => ?_
  split
  case h_1 found => simp [found]
  case h_2 wrong => simp [wrong]

/-- What spells no identifier is an error that tells why. -/
theorem caseIdArg_of_misspelled (misspelled : ∀ id, ¬op.Spells name id) :
    op.caseIdArg name = .error (.malformedOperation op.kind (op.faultOf name)) := by
  unfold caseIdArg faultOf
  cases found : (op.args.get? name).bind Json.string? with
  | none =>
    rw [textArg, found]
    rfl
  | some text =>
    have there := Json.bind_string?_eq_some_iff.mp found
    have unread : CaseId.ofString? text = none := by
      rw [Option.eq_none_iff_forall_ne_some]
      exact fun id read => misspelled id ⟨text, there, CaseId.ofString?_eq_some_iff.mp read⟩
    simp only [textArg_eq_ok_iff.mpr there, bind, Except.bind, unread]

/-! ### Operations that say the same -/

/-- Two operations differ in how they spell identifiers at most. -/
structure Alike (op op' : LedgerOperation) : Prop where
  kind : op'.kind = op.kind
  failed : op'.failed = op.failed
  partialFee : op'.partialFee = op.partialFee
  storageFee : op'.storageFee = op.storageFee
  texts : ∀ name, name ∉ idArguments → op'.textArg name = op.textArg name
  ids : ∀ name ∈ idArguments, op'.caseIdArg name = op.caseIdArg name

theorem alike_replaceArg (known : name ∈ idArguments) (spells : op.Spells name id) {other : String}
    (spelling : id.HasSpelling other.toList) : op.Alike (op.replaceArg name (.string other)) where
  kind := rfl
  failed := rfl
  partialFee := rfl
  storageFee := rfl
  texts other unknown := by
    have ne : other ≠ name := fun same => unknown (same ▸ known)
    simp only [textArg, replaceArg, Json.get?_replaceField_of_ne ne]
  ids other _ := by
    by_cases same : other = name
    · subst same
      have ⟨_, found, _⟩ := spells
      rw [caseIdArg_eq_ok_iff.mpr spells, caseIdArg_eq_ok_iff]
      exact ⟨_, Json.get?_replaceField_self found _, spelling⟩
    · simp only [caseIdArg, textArg, replaceArg, Json.get?_replaceField_of_ne same]

namespace Alike
variable (h : op.Alike op')
include h

theorem inclusionFees : op'.inclusionFees = op.inclusionFees := by
  unfold LedgerOperation.inclusionFees
  rw [h.kind, h.partialFee, h.storageFee]

theorem storageFees : op'.storageFees = op.storageFees := by
  unfold LedgerOperation.storageFees
  rw [h.inclusionFees, h.kind]

theorem keyArg (kind : ItemKind) : ChainStamp.keyArg op' kind = ChainStamp.keyArg op kind := by
  cases kind with
  | file => exact congrArg (ContentHash.mk <$> ·) (h.texts "hash" (by decide))
  | metadata => exact h.texts "name" (by decide)
  | link => exact h.ids "target" (by decide)

theorem itemFees (kind : ItemKind) : ChainStamp.itemFees op' kind = ChainStamp.itemFees op kind := by
  cases kind with
  | file => exact h.storageFees
  | metadata | link => exact h.inclusionFees

theorem ofOperation (kind : OperationKind) :
    ChainStamp.ofOperation kind op' = ChainStamp.ofOperation kind op := by
  cases kind <;>
    simp only [ChainStamp.ofOperation, ChainStamp.itemAddedBy, ChainStamp.itemAcknowledgedBy, h.keyArg,
      h.itemFees, h.inclusionFees, h.ids "replacer_id" (by decide), h.texts "item_id" (by decide)]

/-- Whatever the stores are, the same is done with them and comes of it. -/
theorem dispatch {σ : Type} (b : Backend σ) (node : Identity) (on : Timestamp) :
    b.dispatch node op' on = b.dispatch node op on := by
  unfold Backend.dispatch Backend.dispatchTargeted Backend.stampCase
  simp only [h.failed, h.kind, h.ids "loc_id" (by decide), h.ofOperation]

end Alike
end LedgerOperation

/-! ### Identifiers in change sets -/

/-- The reference of a link is its target as identifiers are written, which reads back. -/
theorem Item.ref_link (link : Item .link) :
    CaseId.IsWritten link.ref.key ∧ CaseId.ofString? link.ref.key = some link.payload.target :=
  ⟨CaseId.isWritten_toString link.payload.target, CaseId.ofString?_toString link.payload.target⟩

/-- What a change set names as a link is a link of a case on the way. -/
theorem Case.Stretch.link {c c' : Case} {changes : ChangeSet} (h : Stretch c changes c') {ref : ItemRef}
    (named : changes.Mentions ref) (isLink : ref.kind = .link) :
    ∃ d, Between c d c' ∧ ∃ link ∈ (d.collection .link).items, ref = link.ref := by
  obtain ⟨d, between, held⟩ := h.mentions named
  unfold Holds at held
  rw [isLink] at held
  obtain ⟨link, mem, same⟩ := List.mem_map.mp held
  exact ⟨d, between, link, mem, same.symm⟩

/-- What is saved in addition is saved of a stored case, with a change set that tells what became of
it. -/
def Memory.SavesStretches (m m' : Memory) : Prop :=
  ∃ saved, m'.repository.saves = m.repository.saves ++ saved ∧
    ∀ entry ∈ saved, ∃ c c', m.repository.find? entry.1 = some c ∧ Case.Stretch c entry.2 c'

/-! ### Misspelled identifiers -/

/-- The other identifier that operations of a kind give, beside that of the case. -/
def OperationKind.idArgument? : OperationKind → Option String
  | .addLink | .acknowledgeLink => some "target"
  | .makeVoidAndReplace => some "replacer_id"
  | _ => none

/-- The identifier is read before anything else of the stamp. -/
theorem ChainStamp.ofOperation_of_error {kind : OperationKind} {op : LedgerOperation} {name : String}
    (reads : kind.idArgument? = some name) {e : Error} (wrong : op.caseIdArg name = .error e) :
    ofOperation kind op = .error e := by
  unfold OperationKind.idArgument? at reads
  split at reads
  · cases reads
    simp only [ofOperation, itemAddedBy, keyArg, wrong]
    rfl
  · cases reads
    simp only [ofOperation, itemAcknowledgedBy, keyArg, wrong]
    rfl
  · cases reads
    simp only [ofOperation, wrong]
    rfl
  · cases reads

theorem OperationKind.targeted_of_idArgument? {kind : OperationKind} {name : String}
    (reads : kind.idArgument? = some name) : kind.targetPolicy ≠ .untargeted := by
  cases kind <;> simp [idArgument?, targetPolicy] at reads ⊢

/-- What an operation demands that succeeded on the ledger and is of a kind that names a case. -/
theorem LedgerOperation.demand_of_targeted {op : LedgerOperation} {kind : OperationKind}
    (succeeded : op.failed = false) (known : OperationKind.classify op.kind = .ok (some kind))
    (targeted : kind.targetPolicy ≠ .untargeted) :
    op.demand = (op.caseIdArg "loc_id").map (.stamp kind) := by
  unfold demand
  rw [if_neg (by simp [succeeded]), known]
  exact if_neg targeted

namespace Memory

variable {m : Memory} {op : LedgerOperation} {kind : OperationKind}

theorem savesStretches_refl (m : Memory) : m.SavesStretches m :=
  ⟨[], (List.append_nil m.repository.saves).symm, nofun⟩

theorem savesStretches_save {id : CaseId} {c after : Case} {changes : ChangeSet}
    (found : m.repository.find? id = some c) (stretch : Case.Stretch c changes after) :
    m.SavesStretches { m with repository := m.repository.save after changes } := by
  refine ⟨[(after.id, changes)], rfl, fun entry mem => ?_⟩
  obtain rfl := List.mem_singleton.mp mem
  have named : after.id = id := stretch.id.trans (Repository.id_of_find? found)
  exact ⟨c, after, named ▸ found, stretch⟩

theorem savesStretches_mutate (m : Memory) (id : CaseId) (operations : List CaseOperation) :
    m.SavesStretches ((backend.mutate id (Case.perform operations)).run m).2 := by
  cases found : m.repository.find? id with
  | none =>
    unfold Backend.mutate
    rw [Action.run_bind_of_error (run_getCase_unknown found)]
    exact m.savesStretches_refl
  | some c =>
    obtain ⟨_ | changes, after, ran⟩ :
        ∃ result after, (Case.perform operations).run c = (result, after) := ⟨_, _, rfl⟩
    · rw [run_mutate_of_error found ran]
      exact m.savesStretches_refl
    · rw [run_mutate found ran]
      exact savesStretches_save found (Case.stretch_of_perform ran)

theorem savesStretches_dispatch (m : Memory) (node : Identity) (op : LedgerOperation) (on : Timestamp) :
    m.SavesStretches ((backend.dispatch node op on).run m).2 := by
  rw [run_dispatch]
  cases ruled : m.repository.ruling node op on with
  | refuse e => exact m.savesStretches_refl
  | pass reason => exact m.savesStretches_refl
  | stamp id after changes =>
    obtain ⟨stamp, c, _, found, _, ran⟩ := Repository.ruling_eq_stamp.mp ruled
    exact savesStretches_save found (Case.stretch_of_perform ran)

/-- An operation that does not spell the case it names is refused. -/
theorem dispatch_misspelled_case (node : Identity) (on : Timestamp) (succeeded : op.failed = false)
    (known : OperationKind.classify op.kind = .ok (some kind)) (targeted : kind.targetPolicy ≠ .untargeted)
    (misspelled : ∀ id, ¬op.Spells "loc_id" id) :
    (backend.dispatch node op on).run m =
      (.error (.malformedOperation op.kind (op.faultOf "loc_id")), m) := by
  have wrong := LedgerOperation.caseIdArg_of_misspelled misspelled
  have demand := LedgerOperation.demand_of_targeted succeeded known targeted
  rw [wrong] at demand
  rw [run_dispatch, Repository.ruling, demand]
  rfl

/-- An operation on a case of the node that does not spell another identifier it gives is refused. -/
theorem dispatch_misspelled_argument {node : Identity} (on : Timestamp) {id : CaseId} {c : Case} {name : String}
    (succeeded : op.failed = false) (known : OperationKind.classify op.kind = .ok (some kind))
    (reads : kind.idArgument? = some name) (spells : op.Spells "loc_id" id)
    (found : m.repository.find? id = some c) (mine : c.owner = node)
    (misspelled : ∀ other, ¬op.Spells name other) :
    (backend.dispatch node op on).run m = (.error (.malformedOperation op.kind (op.faultOf name)), m) := by
  have wrong := ChainStamp.ofOperation_of_error reads (LedgerOperation.caseIdArg_of_misspelled misspelled)
  have demand := LedgerOperation.demand_of_targeted succeeded known
    (OperationKind.targeted_of_idArgument? reads)
  rw [LedgerOperation.caseIdArg_eq_ok_iff.mpr spells] at demand
  rw [run_dispatch, Repository.ruling, demand]
  simp only [Except.map, found, Ruling.onTarget, Case.ruling, if_pos mine, wrong]
  rfl

end Memory

/-! ### From the arguments to the change sets -/

namespace LedgerOperation

/-- What the identifiers in the arguments of an operation stand for, and in which form they come out. -/
structure ReadsByValue (op : LedgerOperation) (node : Identity) (on : Timestamp) (m : Memory) : Prop where
  /-- Just the spellings of an identifier are read as it. -/
  accepted : ∀ (id : CaseId) (text : String),
    CaseId.ofString? text = some id ↔ id.HasSpelling text.toList
  /-- Another spelling in the place of an argument changes nothing, whatever the stores are. -/
  respelled : ∀ name ∈ idArguments, ∀ id, op.Spells name id →
    ∀ other : String, id.HasSpelling other.toList → ∀ {σ : Type} (b : Backend σ),
      b.dispatch node (op.replaceArg name (.string other)) on = b.dispatch node op on
  /-- What a change set names as a link is a link of a case on the way, by its target as identifiers
  are written, which reads back. -/
  references : ∀ {c c' : Case} {changes : ChangeSet}, Case.Stretch c changes c' →
    ∀ ref, changes.Mentions ref → ref.kind = .link →
      ∃ d, Case.Between c d c' ∧ ∃ link ∈ (d.collection .link).items, ref = link.ref ∧
        CaseId.IsWritten ref.key ∧ CaseId.ofString? ref.key = some link.payload.target
  distinct : ∀ a b : Item .link, a.ref = b.ref → a.payload.target = b.payload.target
  /-- The change sets that are saved are such, of this operation and of others on a case. -/
  saved : m.SavesStretches ((Memory.backend.dispatch node op on).run m).2
  edited : ∀ id operations,
    m.SavesStretches ((Memory.backend.mutate id (Case.perform operations)).run m).2
  /-- An operation of a kind that names a case is refused if it spells none. -/
  misspelledCase : ∀ kind, op.failed = false → OperationKind.classify op.kind = .ok (some kind) →
    kind.targetPolicy ≠ .untargeted → (∀ id, ¬op.Spells "loc_id" id) →
      (Memory.backend.dispatch node op on).run m =
        (.error (.malformedOperation op.kind (op.faultOf "loc_id")), m)
  /-- An operation on a case of the node is refused if it does not spell the other identifier that
  its kind asks for. -/
  misspelledArgument : ∀ kind name, op.failed = false →
    OperationKind.classify op.kind = .ok (some kind) → kind.idArgument? = some name →
    ∀ id c, op.Spells "loc_id" id → m.repository.find? id = some c → c.owner = node →
    (∀ other, ¬op.Spells name other) →
      (Memory.backend.dispatch node op on).run m =
        (.error (.malformedOperation op.kind (op.faultOf name)), m)

/-- Identifiers are read by what they spell, however it is spelled, and come out in one form; where
nothing is spelled, the operation is refused and nothing is done. -/
theorem ids_read_by_value (op : LedgerOperation) (node : Identity) (on : Timestamp) (m : Memory) :
    op.ReadsByValue node on m where
  accepted _ _ := CaseId.ofString?_eq_some_iff
  respelled _ known _ spells _ spelling _ b := (alike_replaceArg known spells spelling).dispatch b node on
  references stretch ref named isLink := by
    obtain ⟨d, between, link, mem, rfl⟩ := stretch.link named isLink
    exact ⟨d, between, link, mem, rfl, link.ref_link⟩
  distinct _ _ same := ItemKind.ref_inj.mp same
  saved := m.savesStretches_dispatch node op on
  edited id operations := m.savesStretches_mutate id operations
  misspelledCase _ succeeded known targeted misspelled :=
    Memory.dispatch_misspelled_case node on succeeded known targeted misspelled
  misspelledArgument _ _ succeeded known reads _ _ spells found mine misspelled :=
    Memory.dispatch_misspelled_argument on succeeded known reads spells found mine misspelled

/-- Braces do not keep the sale from being closed. -/
example :
    ((Memory.backend.dispatch Sample.node
      (Sample.closing.replaceArg "loc_id" (.string "{00000000-0000-0000-0000-000000000000}"))
      .epoch).run Sample.memory).1 = .ok (.applied Sample.saleId) := by
  decide +kernel

end LedgerOperation
end CaseRegistry
