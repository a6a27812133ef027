import CaseRegistry.Proofs.Case.Delivery
import CaseRegistry.Proofs.Format.Ledger
import CaseRegistry.Proofs.Format.Operations

/-! What is written is read back.

A document of any of the seven forms is read back from its text as it was, just as long as its
numbers and dates are such as its fields hold and free arguments do not nest too deep
(`Document.lawful`). Whatever was read is written so that it is read again, and so is every case
that operations make of a new one, with its items and the change sets that it replies
(`documents_read_back`). The exception are arguments of ledger operations that are put together and
not read: nothing bounds how deep they nest, and beyond 126 levels they are lost
(`deep_arguments_lost`). -/
namespace CaseRegistry

open Json (Codec)
open Json.Number (IsReadable)

/-- The forms of documents. -/
inductive Document where
  | caseRecord
  | item (kind : ItemKind)
  | changeSet
  | ledgerOperation
  | ledgerBlock
  | checkpoint
  | blockRecord

namespace Document

/-- What a document of a form holds. -/
@[reducible] def Value : Document → Type
  | caseRecord => Case
  | item kind => Item kind
  | changeSet => ChangeSet
  | ledgerOperation => LedgerOperation
  | ledgerBlock => LedgerBlock
  | checkpoint => CheckpointRecord
  | blockRecord => BlockRecord

def codec : (d : Document) → Codec d.Value
  | caseRecord => Format.caseRecord
  | item kind => Format.item kind
  | changeSet => Format.changeSet
  | ledgerOperation => Format.ledgerOperation
  | ledgerBlock => Format.ledgerBlock
  | checkpoint => Format.checkpoint
  | blockRecord => Format.blockRecord

/-- A text nests 127 levels at most; arguments have what is left below their operation. -/
def Fits : (d : Document) → d.Value → Prop
  | caseRecord, c => c.Fits (2 ^ 128)
  | item _, i => i.Fits (2 ^ 128)
  | changeSet, changes => changes.Fits
  | ledgerOperation, op => op.Fits IsReadable (2 ^ 128) 126
  | ledgerBlock, b => b.Fits IsReadable (2 ^ 128) 124
  | checkpoint, c => c.Fits
  | blockRecord, r => r.Fits

theorem lawful : (d : Document) → d.codec.Lawful IsReadable 127 d.Fits
  | caseRecord => Format.lawful_caseRecord Format.admits_isReadable
  | item kind => Format.lawful_item Format.admits_isReadable kind
  | changeSet => Format.lawful_changeSet Format.admits_isReadable
  | ledgerOperation => Format.lawful_ledgerOperation Format.admits_isReadable
  | ledgerBlock => Format.lawful_ledgerBlock Format.admits_isReadable
  | checkpoint => Format.lawful_checkpoint Format.admits_isReadable
  | blockRecord => Format.lawful_blockRecord Format.admits_isReadable

/-- Just the documents that fit are read back. -/
theorem readsBack_iff (d : Document) (v : d.Value) : d.codec.ReadsBack v ↔ d.Fits v :=
  d.lawful.readsBack_iff

end Document

namespace Sample

/-- An array in an array, so many levels deep. -/
def nested : Nat → Json
  | 0 => .null
  | n + 1 => .array [nested n]

theorem depth_of_nested {allowed : Json.Number → Prop} {n depth : Nat}
    (fits : (nested n).FitsIn allowed depth) : n ≤ depth := by
  induction n generalizing depth with
  | zero => exact Nat.zero_le _
  | succ n ih =>
    cases fits with
    | array each => exact Nat.succ_le_succ (ih (List.forall_mem_singleton.1 each))

theorem canonical_nested (n : Nat) : (nested n).canonical = nested n := by
  induction n with
  | zero => rfl
  | succ n ih => simp [nested, Json.canonical, Json.canonicalElements, ih]

/-- A closing, its fields out of order and blanks between them. -/
def closingText : String :=
  "\x7b \"partial_fee\": 5, \"args\": \x7b \"note\": \"d\\u00e9p\\u00f4t\", \"loc_id\": null \x7d, \"kind\": \"loc.close\" \x7d"

end Sample

theorem Case.IsNew.reachable {c : Case} (h : c.IsNew) : c.Reachable := by
  obtain ⟨d, made | made | ⟨on, made⟩⟩ := h
  · exact .draft made
  · exact .request made
  · exact .openNew made

/-- What a document needs to be read back is that it fits, which all that was ever read does, and
all that operations with arguments that fit make of a new case. -/
theorem documents_read_back :
    (∀ (d : Document) (v : d.Value), d.codec.ReadsBack v ↔ d.Fits v) ∧
      (∀ (d : Document) (text : String) (v : d.Value),
        d.codec.ofText? text = some v → d.codec.ReadsBack v) ∧
      (∀ c later : ChangeSet, Format.changeSet.ReadsBack c → Format.changeSet.ReadsBack later →
        Format.changeSet.ReadsBack (c.merge later)) ∧
      ∀ (made : Case) (ops : List CaseOperation), made.IsNew → made.Fits (2 ^ 128) →
        (∀ op ∈ ops, op.Fits (2 ^ 128)) → (∀ n ≤ ops.length, (made.after (ops.take n)).IsSmall) →
          Format.caseRecord.ReadsBack (made.after ops) ∧
          (∀ kind, ∀ item ∈ ((made.after ops).collection kind).items,
            (Format.item kind).ReadsBack item) ∧
          ∀ op reply later, (Case.apply op).run (made.after ops) = (.ok reply, later) →
            Format.changeSet.ReadsBack reply.changeSet := by
  refine ⟨Document.readsBack_iff, fun d text v read => ?_, fun c later fits fits' => ?_,
    fun made ops new fits args small => ?_⟩
  · exact (d.readsBack_iff v).2 (d.lawful.fits_of_ofText? read)
  · have reads := Document.readsBack_iff .changeSet
    exact (reads _).2 (((reads c).1 fits).merge ((reads later).1 fits'))
  · have listed := (new.reachable.after ops).isListed
    have last : (made.after ops).IsSmall := by simpa using small ops.length (Nat.le_refl _)
    have whole := fits.after new.reachable.isListed args small
    refine ⟨(Document.readsBack_iff .caseRecord _).2 whole, fun kind item mem => ?_,
      fun op reply later ran => ?_⟩
    · exact (Document.readsBack_iff (.item kind) item).2 (whole.items kind item mem)
    · exact (Document.readsBack_iff .changeSet _).2
        (Case.fits_of_apply last (listed.isPlaced last) ran)

/-- Arguments that nest 127 levels deep are well-formed in themselves, and yet an operation that is put
together with them is not read back. -/
theorem deep_arguments_lost :
    let op := LedgerOperation.new "loc.close" (Sample.nested 127)
    op.args.isReadable ∧ op.args.numbers = [] ∧ op.args.canonical = op.args ∧
      ¬Format.ledgerOperation.ReadsBack op := by
  refine ⟨by decide +kernel, by decide +kernel, Sample.canonical_nested 127, fun reads => ?_⟩
  -- Below the operation itself 126 levels are left.
  have fits : LedgerOperation.Fits IsReadable (2 ^ 128) 126 _ :=
    (Document.readsBack_iff .ledgerOperation _).1 reads
  exact absurd (Sample.depth_of_nested fits.args) (by decide)

/-- The estate with its survey, and an operation whose arguments come out of order. -/
theorem documents_of_estate :
    (∃ made, Case.openNew Sample.estate .epoch = .ok made ∧
      let c := made.after Sample.surveyHandedOut
      (c.collection .file).size = 1 ∧ Format.caseRecord.ReadsBack c) ∧
    ∃ op, Format.ledgerOperation.ofText? Sample.closingText = some op ∧ op.partialFee = some 5 ∧
      Format.ledgerOperation.ReadsBack op := by
  constructor
  · have inRange : Timestamp.epoch.date.IsInRange := by decide +kernel
    refine ⟨_, rfl, rfl, (documents_read_back.2.2.2 _ Sample.surveyHandedOut
      ⟨Sample.estate, .inr (.inr ⟨.epoch, rfl⟩)⟩ ?_ ?_ (by decide +kernel)).1⟩
    · exact
        { createdOn := by simp
          decisionOn := by simp [inRange]
          closedOn := by simp
          voidInfo := by simp
          sealInfo := by simp [Sample.estate]
          creationFees := by simp
          items := Format.fits_empty
          collectionItems := by simp }
    · simp only [Sample.surveyHandedOut, List.forall_mem_cons]
      exact ⟨⟨by decide, List.forall_mem_nil _⟩, inRange, inRange, inRange, inRange,
        List.forall_mem_nil _⟩
  · obtain ⟨op, read⟩ : ∃ op, Format.ledgerOperation.ofText? Sample.closingText = some op :=
      Option.isSome_iff_exists.1 (by decide +kernel)
    have fee : (Format.ledgerOperation.ofText? Sample.closingText).bind (·.partialFee) = some 5 := by
      decide +kernel
    rw [read] at fee
    exact ⟨op, read, fee, documents_read_back.2.1 .ledgerOperation _ op read⟩

end CaseRegistry
