import CaseRegistry.Format.Values

/-!
The JSON form of items, collections and change sets.
-/
namespace CaseRegistry.Format

open Json

def itemRef : Codec ItemRef :=
  Record.codec (.cons (.required "kind" itemKind) <| .cons (.required "key" .string) .nil)
    (fun r => (r.kind, r.key, ())) (fun (kind, key, ()) => ⟨kind, key⟩)

def indexMove : Codec IndexMove :=
  Record.codec
    (.cons (.required "item" itemRef) <|
      .cons (.required "from" count) <|
      .cons (.required "to" count) .nil)
    (fun m => (m.item, m.before, m.after, ()))
    (fun (item, before, after, ()) => ⟨item, before, after⟩)

def changeSet : Codec ChangeSet :=
  Record.codec
    (.cons (.required "added" (.list itemRef)) <|
      .cons (.required "updated" (.list itemRef)) <|
      .cons (.required "removed" (.list itemRef)) <|
      .cons (.required "reindexed" (.list indexMove)) .nil)
    (fun c => (c.added, c.updated, c.removed, c.reindexed, ()))
    (fun (added, updated, removed, reindexed, ()) => ⟨added, updated, removed, reindexed⟩)

def review : Codec Review :=
  Record.codec
    (.cons (.required "decision" reviewDecision) <| .cons (.optional "reason" .string) .nil)
    (fun r => (r.decision, r.reason, ())) (fun (decision, reason, ()) => ⟨decision, reason⟩)

def deliveredCopy : Codec DeliveredCopy :=
  Record.codec
    (.cons (.required "hash" contentHash) <|
      .cons (.required "recipient" identity) <|
      .cons (.required "delivered_on" timestamp) .nil)
    (fun c => (c.hash, c.recipient, c.deliveredOn, ()))
    (fun (hash, recipient, deliveredOn, ()) => ⟨hash, recipient, deliveredOn⟩)

def filePayload : Codec FilePayload :=
  Record.codec
    (.cons (.required "hash" contentHash) <|
      .cons (.required "name" .string) <|
      .cons (.required "size" count) <|
      .cons (.required "content_type" .string) <|
      .cons (.required "storage_ref" .string) <|
      .cons (.required "nature" .string) <|
      .cons (.defaulted "restricted_delivery" .bool false) <|
      .cons (.defaulted "delivered" (.list deliveredCopy) []) .nil)
    (fun p => (p.hash, p.name, p.size, p.contentType, p.storageRef, p.nature,
      p.restrictedDelivery, p.delivered, ()))
    (fun (hash, name, size, contentType, storageRef, nature, restrictedDelivery, delivered, ()) =>
      { hash, name, size, contentType, storageRef, nature, restrictedDelivery, delivered })

def metadataPayload : Codec MetadataPayload :=
  Record.codec (.cons (.required "name" .string) <| .cons (.required "value" .string) .nil)
    (fun p => (p.name, p.value, ())) (fun (name, value, ()) => ⟨name, value⟩)

def linkPayload : Codec LinkPayload :=
  Record.codec (.cons (.required "target" caseId) <| .cons (.required "nature" .string) .nil)
    (fun p => (p.target, p.nature, ())) (fun (target, nature, ()) => ⟨target, nature⟩)

def payload : (kind : ItemKind) → Codec kind.Payload
  | .file => filePayload
  | .metadata => metadataPayload
  | .link => linkPayload

def item (kind : ItemKind) : Codec (Item kind) :=
  Record.codec
    (.cons (.required "index" count) <|
      .cons (.required "submitter" identity) <|
      .cons (.required "mode" submissionMode) <|
      .cons (.required "status" itemStatus) <|
      .cons (.optional "review" review) <|
      .cons (.defaulted "redrafted_after_rejection" .bool false) <|
      .cons (.optional "pre_confirmed_by" identity) <|
      .cons (.optional "added_on" timestamp) <|
      .cons (.optional "acknowledged_on" timestamp) <|
      .cons (.optional "fees" fees) <|
      .cons (.required "payload" (payload kind)) .nil)
    (fun i => (i.index, i.submitter, i.mode, i.status, i.review, i.redraftedAfterRejection,
      i.preConfirmedBy, i.addedOn, i.acknowledgedOn, i.fees, i.payload, ()))
    (fun (index, submitter, mode, status, review, redraftedAfterRejection, preConfirmedBy,
        addedOn, acknowledgedOn, fees, payload, ()) =>
      { index, submitter, mode, status, review, redraftedAfterRejection, preConfirmedBy,
        addedOn, acknowledgedOn, fees, payload })

def collection (kind : ItemKind) : Codec (Collection kind) :=
  (Codec.list (item kind)).iso Collection.mk Collection.items

end CaseRegistry.Format
