import CaseRegistry.Format.Case
import CaseRegistry.Proofs.Format.Items
import Mathlib.Tactic.MkIffOfInductiveProp

/-! Cases are written and read lawfully, with all that is in them (`lawful_caseRecord`). -/
namespace CaseRegistry

variable (limit : Nat)

def VoidInfo.Fits (v : VoidInfo) : Prop := ∀ t ∈ v.voidedOn, t.date.IsInRange

def Seal.Fits (s : Seal) : Prop := s.version < 2 ^ 32

def CollectionEntry.Fits (e : CollectionEntry) : Prop :=
  e.addedOn.date.IsInRange ∧ e.fees.Fits limit

def CaseItems.Fits (i : CaseItems) : Prop := ∀ kind, (i.get kind).Fits limit

@[mk_iff]
structure Case.Fits (c : Case) : Prop where
  createdOn : ∀ t ∈ c.createdOn, t.date.IsInRange
  decisionOn : ∀ t ∈ c.decisionOn, t.date.IsInRange
  closedOn : ∀ t ∈ c.closedOn, t.date.IsInRange
  voidInfo : ∀ v ∈ c.voidInfo, v.Fits
  sealInfo : ∀ s ∈ c.sealInfo, s.Fits
  creationFees : ∀ f ∈ c.creationFees, f.Fits limit
  items : c.items.Fits limit
  collectionItems : ∀ e ∈ c.collectionItems, e.Fits limit

/-- All fees of a case are below a limit. -/
structure Case.ChargesBelow (limit : Nat) (c : Case) : Prop where
  creation : ∀ f ∈ c.creationFees, f.Fits limit
  items : ∀ kind, ∀ item ∈ (c.items.get kind).items, ∀ f ∈ item.fees, f.Fits limit
  entries : ∀ e ∈ c.collectionItems, e.fees.Fits limit

namespace Case

variable {c : Case} {limit limit' : Nat}

theorem Fits.chargesBelow (fits : c.Fits limit) : c.ChargesBelow limit where
  creation := fits.creationFees
  items kind item mem := (fits.items kind item mem).fees
  entries e mem := (fits.collectionItems e mem).2

theorem Fits.narrow (fits : c.Fits limit) (below : c.ChargesBelow limit') : c.Fits limit' :=
  { fits with
    creationFees := below.creation
    items := fun kind item mem =>
      { fits.items kind item mem with fees := below.items kind item mem }
    collectionItems := fun e mem => ⟨(fits.collectionItems e mem).1, below.entries e mem⟩ }

end Case

namespace Format

open Json

section Lawful

variable {allowed : Number → Prop} {depth limit : Nat}

theorem lawful_voidInfo : voidInfo.Lawful allowed (depth + 1) VoidInfo.Fits :=
  Record.Lawful.codec
    (.cons (.required .string) <|
      .cons (.optional lawful_timestamp rfl) <|
      .cons (.optional lawful_caseId rfl) .nil)
    (by decide) (fun _ => rfl) (fun _ => rfl) (by simp [VoidInfo.Fits])

/-- Versions have 32 bits. -/
theorem lawful_version (admits : Admits allowed limit) :
    (Codec.word 32).Lawful allowed depth (· < 2 ^ 32) :=
  (Codec.Lawful.word 32).congr fun _ => ⟨And.left, fun fits =>
    ⟨fits, admits.counts (Nat.lt_trans fits (by decide))⟩⟩

theorem lawful_sealInfo (admits : Admits allowed limit) :
    sealInfo.Lawful allowed (depth + 1) Seal.Fits :=
  Record.Lawful.codec
    (.cons (.required lawful_sealHash) <|
      .cons (.required .string) <|
      .cons (.required (lawful_version admits)) .nil)
    (by decide) (fun _ => rfl) (fun _ => rfl) (by simp [Seal.Fits])

theorem lawful_collectionEntry (admits : Admits allowed limit) :
    collectionEntry.Lawful allowed (depth + 2) (CollectionEntry.Fits limit) :=
  Record.Lawful.codec
    (.cons (.required .string) <|
      .cons (.required lawful_timestamp) <|
      .cons (.required (lawful_fees admits)) .nil)
    (by decide) (fun _ => rfl) (fun _ => rfl) (by simp [CollectionEntry.Fits])

theorem fits_caseItems_iff (i : CaseItems) :
    i.Fits limit ↔ i.files.Fits limit ∧ i.metadata.Fits limit ∧ i.links.Fits limit :=
  ⟨fun fits => ⟨fits .file, fits .metadata, fits .link⟩, fun ⟨files, metadata, links⟩ kind => by
    cases kind
    · exact files
    · exact metadata
    · exact links⟩

theorem lawful_caseItems (admits : Admits allowed limit) :
    caseItems.Lawful allowed (depth + 6) (CaseItems.Fits limit) :=
  Record.Lawful.codec
    (.cons (.required (lawful_collection admits .file)) <|
      .cons (.required (lawful_collection admits .metadata)) <|
      .cons (.required (lawful_collection admits .link)) .nil)
    (by decide) (fun _ => rfl) (fun _ => rfl) (by simp [fits_caseItems_iff])

theorem fits_empty : CaseItems.Fits limit ∅ := by
  rintro (_ | _ | _) item mem <;> exact absurd mem List.not_mem_nil

theorem lawful_caseRecord (admits : Admits allowed limit) :
    caseRecord.Lawful allowed (depth + 7) (Case.Fits limit) :=
  Record.Lawful.codec
    (.cons (.required lawful_caseId) <|
      .cons (.required lawful_caseStatus) <|
      .cons (.required lawful_identity) <|
      .cons (.optional lawful_requester rfl) <|
      .cons (.required .string) <|
      .cons (.required lawful_caseKind) <|
      .cons (.optional lawful_timestamp rfl) <|
      .cons (.optional lawful_timestamp rfl) <|
      .cons (.optional .string rfl) <|
      .cons (.optional lawful_timestamp rfl) <|
      .cons (.optional lawful_voidInfo rfl) <|
      .cons (.optional (lawful_sealInfo admits) rfl) <|
      .cons (.optional lawful_verificationStatus rfl) <|
      .cons (.optional (lawful_fees admits) rfl) <|
      .cons (.defaulted lawful_delegates trivial) <|
      .cons (.defaulted (lawful_caseItems admits) fits_empty) <|
      .cons (.defaulted (.list (lawful_collectionEntry admits)) (by simp)) .nil)
    (by decide) (fun _ => rfl) (fun _ => rfl) (by simp [Case.fits_iff])

end Lawful
end Format
end CaseRegistry
