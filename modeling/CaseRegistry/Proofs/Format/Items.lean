import CaseRegistry.Format.Items
import CaseRegistry.Proofs.Format.Values
import Mathlib.Tactic.MkIffOfInductiveProp

/-! Items, collections and change sets are written and read lawfully, whatever their kind. -/
namespace CaseRegistry

variable (limit : Nat)

def IndexMove.Fits (m : IndexMove) : Prop := m.before < 2 ^ 64 ∧ m.after < 2 ^ 64

def ChangeSet.Fits (c : ChangeSet) : Prop := ∀ m ∈ c.reindexed, m.Fits

def DeliveredCopy.Fits (c : DeliveredCopy) : Prop := c.deliveredOn.date.IsInRange

def FilePayload.Fits (p : FilePayload) : Prop := p.size < 2 ^ 64 ∧ ∀ copy ∈ p.delivered, copy.Fits

/-- Only what files carry has numbers and dates in it. -/
def ItemKind.Fits : (kind : ItemKind) → kind.Payload → Prop
  | .file, payload => payload.Fits
  | .metadata, _ | .link, _ => True

@[mk_iff]
structure Item.Fits {kind : ItemKind} (i : Item kind) : Prop where
  index : i.index < 2 ^ 64
  addedOn : ∀ t ∈ i.addedOn, t.date.IsInRange
  acknowledgedOn : ∀ t ∈ i.acknowledgedOn, t.date.IsInRange
  fees : ∀ f ∈ i.fees, f.Fits limit
  payload : kind.Fits i.payload

def Collection.Fits {kind : ItemKind} (c : Collection kind) : Prop :=
  ∀ item ∈ c.items, item.Fits limit

namespace Format

open Json

section Lawful

variable {allowed : Number → Prop} {depth limit : Nat}

theorem lawful_itemRef : itemRef.Lawful allowed (depth + 1) fun _ => True :=
  Record.Lawful.codec (.cons (.required lawful_itemKind) <| .cons (.required .string) .nil)
    (by decide) (fun _ => rfl) (fun _ => rfl) (by simp)

theorem lawful_indexMove (admits : Admits allowed limit) :
    indexMove.Lawful allowed (depth + 2) IndexMove.Fits :=
  Record.Lawful.codec
    (.cons (.required lawful_itemRef) <|
      .cons (.required (lawful_count admits)) <|
      .cons (.required (lawful_count admits)) .nil)
    (by decide) (fun _ => rfl) (fun _ => rfl) (by simp [IndexMove.Fits])

theorem lawful_changeSet (admits : Admits allowed limit) :
    changeSet.Lawful allowed (depth + 4) ChangeSet.Fits :=
  Record.Lawful.codec
    (.cons (.required (.list lawful_itemRef)) <|
      .cons (.required (.list lawful_itemRef)) <|
      .cons (.required (.list lawful_itemRef)) <|
      .cons (.required (.list (lawful_indexMove admits))) .nil)
    (by decide) (fun _ => rfl) (fun _ => rfl) (by simp [ChangeSet.Fits])

theorem lawful_review : review.Lawful allowed (depth + 1) fun _ => True :=
  Record.Lawful.codec
    (.cons (.required lawful_reviewDecision) <| .cons (.optional .string rfl) .nil)
    (by decide) (fun _ => rfl) (fun _ => rfl) (by simp)

theorem lawful_deliveredCopy : deliveredCopy.Lawful allowed (depth + 1) DeliveredCopy.Fits :=
  Record.Lawful.codec
    (.cons (.required lawful_contentHash) <|
      .cons (.required lawful_identity) <|
      .cons (.required lawful_timestamp) .nil)
    (by decide) (fun _ => rfl) (fun _ => rfl) (by simp [DeliveredCopy.Fits])

theorem lawful_filePayload (admits : Admits allowed limit) :
    filePayload.Lawful allowed (depth + 3) FilePayload.Fits :=
  Record.Lawful.codec
    (.cons (.required lawful_contentHash) <|
      .cons (.required .string) <|
      .cons (.required (lawful_count admits)) <|
      .cons (.required .string) <|
      .cons (.required .string) <|
      .cons (.required .string) <|
      .cons (.defaulted .bool trivial) <|
      .cons (.defaulted (.list lawful_deliveredCopy) (by simp)) .nil)
    (by decide) (fun _ => rfl) (fun _ => rfl) (by simp [FilePayload.Fits])

theorem lawful_metadataPayload : metadataPayload.Lawful allowed (depth + 1) fun _ => True :=
  Record.Lawful.codec (.cons (.required .string) <| .cons (.required .string) .nil)
    (by decide) (fun _ => rfl) (fun _ => rfl) (by simp)

theorem lawful_linkPayload : linkPayload.Lawful allowed (depth + 1) fun _ => True :=
  Record.Lawful.codec (.cons (.required lawful_caseId) <| .cons (.required .string) .nil)
    (by decide) (fun _ => rfl) (fun _ => rfl) (by simp)

theorem lawful_payload (admits : Admits allowed limit) :
    (kind : ItemKind) → (payload kind).Lawful allowed (depth + 3) kind.Fits
  | .file => lawful_filePayload admits
  | .metadata => lawful_metadataPayload
  | .link => lawful_linkPayload

theorem lawful_item (admits : Admits allowed limit) (kind : ItemKind) :
    (item kind).Lawful allowed (depth + 4) (Item.Fits limit) :=
  Record.Lawful.codec
    (.cons (.required (lawful_count admits)) <|
      .cons (.required lawful_identity) <|
      .cons (.required lawful_submissionMode) <|
      .cons (.required lawful_itemStatus) <|
      .cons (.optional lawful_review rfl) <|
      .cons (.defaulted .bool trivial) <|
      .cons (.optional lawful_identity rfl) <|
      .cons (.optional lawful_timestamp rfl) <|
      .cons (.optional lawful_timestamp rfl) <|
      .cons (.optional (lawful_fees admits) rfl) <|
      .cons (.required (lawful_payload admits kind)) .nil)
    (by cases kind <;> decide) (fun _ => rfl) (fun _ => rfl) (by simp [Item.fits_iff])

theorem lawful_collection (admits : Admits allowed limit) (kind : ItemKind) :
    (collection kind).Lawful allowed (depth + 5) (Collection.Fits limit) :=
  .iso (.list (lawful_item admits kind)) (fun _ _ => rfl) (fun _ fits => fits) fun _ fits => fits

end Lawful
end Format
end CaseRegistry
