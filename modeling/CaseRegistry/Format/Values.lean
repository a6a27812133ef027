import CaseRegistry.Case.Filter
import CaseRegistry.ChangeSet
import CaseRegistry.Json.Record

/-!
The JSON form of the small values that records are made of: texts with a type of their own,
numbers of fixed width, and names of statuses and kinds.
-/
namespace CaseRegistry.Format

open Json

def caseId : Codec CaseId := .text CaseId.toString CaseId.ofString?

def identity : Codec Identity := Codec.string.iso Identity.mk Identity.address

def contentHash : Codec ContentHash := Codec.string.iso ContentHash.mk ContentHash.text

def timestamp : Codec Timestamp := .text Timestamp.toString Timestamp.ofString?

/-- Heights, sizes, indexes and counts have 64 bits. -/
def count : Codec Nat := .word 64

/-- Amounts of fees have 128 bits. -/
def amount : Codec Nat := .word 128

/-- The digits of a seal's hash; in reading they may follow `0x`. -/
def sealHash : Codec (Bytes 32) :=
  .text (fun hash => String.ofList hash.toHex) fun text =>
    match text.toList with
    | '0' :: 'x' :: digits => Bytes.ofHex? 32 digits
    | digits => Bytes.ofHex? 32 digits

def caseStatus : Codec CaseStatus := .name CaseStatus.label CaseStatus.all

def itemStatus : Codec ItemStatus := .name ItemStatus.label ItemStatus.all

def itemKind : Codec ItemKind := .name ItemKind.label ItemKind.all

def caseKindLabel : CaseKind → String
  | .identity => "identity"
  | .transaction => "transaction"
  | .collection => "collection"

def caseKind : Codec CaseKind := .name caseKindLabel [.identity, .transaction, .collection]

def submissionModeLabel : SubmissionMode → String
  | .direct => "direct"
  | .delegated => "delegated"

def submissionMode : Codec SubmissionMode := .name submissionModeLabel [.direct, .delegated]

def reviewDecisionLabel : ReviewDecision → String
  | .accepted => "ACCEPTED"
  | .rejected => "REJECTED"

def reviewDecision : Codec ReviewDecision := .name reviewDecisionLabel [.accepted, .rejected]

def verificationStatusLabel : VerificationStatus → String
  | .pending => "pending"
  | .completed => "completed"
  | .failed => "failed"

def verificationStatus : Codec VerificationStatus :=
  .name verificationStatusLabel [.pending, .completed, .failed]

/-- An object with one field, whose name tells the kind of requester. -/
def requester : Codec Requester where
  write
    | .address who => .object [("address", identity.write who)]
    | .identityCase id => .object [("identity_case", caseId.write id)]
  read
    | .object [("address", j)] => (identity.read j).map .address
    | .object [("identity_case", j)] => (caseId.read j).map .identityCase
    | _ => none

def delegates : Codec IdentitySet := (Codec.list identity).iso IdentitySet.ofList IdentitySet.toList

def fees : Codec Fees :=
  Record.codec
    (.cons (.required "inclusion_fee" amount) <|
      .cons (.optional "storage_fee" amount) .nil)
    (fun f => (f.inclusion, f.storage, ()))
    (fun (inclusion, storage, ()) => ⟨inclusion, storage⟩)

end CaseRegistry.Format
