import CaseRegistry.Format.Items

/-!
The JSON form of cases.
-/
namespace CaseRegistry.Format

open Json

def voidInfo : Codec VoidInfo :=
  Record.codec
    (.cons (.required "reason" .string) <|
      .cons (.optional "voided_on" timestamp) <|
      .cons (.optional "replacer" caseId) .nil)
    (fun v => (v.reason, v.voidedOn, v.replacer, ()))
    (fun (reason, voidedOn, replacer, ()) => ⟨reason, voidedOn, replacer⟩)

def sealInfo : Codec Seal :=
  Record.codec
    (.cons (.required "hash" sealHash) <|
      .cons (.required "salt" .string) <|
      .cons (.required "version" (.word 32)) .nil)
    (fun s => (s.hash, s.salt, s.version, ()))
    (fun (hash, salt, version, ()) => ⟨hash, salt, version⟩)

def collectionEntry : Codec CollectionEntry :=
  Record.codec
    (.cons (.required "item_id" .string) <|
      .cons (.required "added_on" timestamp) <|
      .cons (.required "fees" fees) .nil)
    (fun e => (e.itemId, e.addedOn, e.fees, ()))
    (fun (itemId, addedOn, fees, ()) => ⟨itemId, addedOn, fees⟩)

def caseItems : Codec CaseItems :=
  Record.codec
    (.cons (.required "files" (collection .file)) <|
      .cons (.required "metadata" (collection .metadata)) <|
      .cons (.required "links" (collection .link)) .nil)
    (fun i => (i.files, i.metadata, i.links, ()))
    (fun (files, metadata, links, ()) => ⟨files, metadata, links⟩)

def caseRecord : Codec Case :=
  Record.codec
    (.cons (.required "id" caseId) <|
      .cons (.required "status" caseStatus) <|
      .cons (.required "owner" identity) <|
      .cons (.optional "requester" requester) <|
      .cons (.required "description" .string) <|
      .cons (.required "kind" caseKind) <|
      .cons (.optional "created_on" timestamp) <|
      .cons (.optional "decision_on" timestamp) <|
      .cons (.optional "rejection_reason" .string) <|
      .cons (.optional "closed_on" timestamp) <|
      .cons (.optional "void_info" voidInfo) <|
      .cons (.optional "seal" sealInfo) <|
      .cons (.optional "identity_verification" verificationStatus) <|
      .cons (.optional "creation_fees" fees) <|
      .cons (.defaulted "delegates" delegates ∅) <|
      .cons (.defaulted "items" caseItems ∅) <|
      .cons (.defaulted "collection_items" (.list collectionEntry) []) .nil)
    (fun c => (c.id, c.status, c.owner, c.requester, c.description, c.kind, c.createdOn,
      c.decisionOn, c.rejectionReason, c.closedOn, c.voidInfo, c.sealInfo,
      c.identityVerification, c.creationFees, c.delegates, c.items, c.collectionItems, ()))
    (fun (id, status, owner, requester, description, kind, createdOn, decisionOn,
        rejectionReason, closedOn, voidInfo, sealInfo, identityVerification, creationFees,
        delegates, items, collectionItems, ()) =>
      { id, status, owner, requester, description, kind, createdOn, decisionOn,
        rejectionReason, closedOn, voidInfo, sealInfo, identityVerification, creationFees,
        delegates, items, collectionItems })

end CaseRegistry.Format
