import CaseRegistry.CaseId
import CaseRegistry.Fees
import CaseRegistry.Case.Status
import CaseRegistry.Item.Kind

/-!
The life of an item within a case. An item starts as a draft. Its submitter, or the owner of the
case, may send it to review, which the owner decides. It is then confirmed by its submitter or
the owner, and last by the ledger, after which it is no draft any more.
-/
namespace CaseRegistry

inductive ItemStatus where
  | draft
  | reviewPending
  | reviewAccepted
  | reviewRejected
  | published
  | acknowledged
deriving DecidableEq

def ItemStatus.all : List ItemStatus :=
  [.draft, .reviewPending, .reviewAccepted, .reviewRejected, .published, .acknowledged]

def ItemStatus.label : ItemStatus → String
  | .draft => "DRAFT"
  | .reviewPending => "REVIEW_PENDING"
  | .reviewAccepted => "REVIEW_ACCEPTED"
  | .reviewRejected => "REVIEW_REJECTED"
  | .published => "PUBLISHED"
  | .acknowledged => "ACKNOWLEDGED"

instance : ToString ItemStatus := ⟨ItemStatus.label⟩

/-- How an item came into the case, which settles how it is confirmed. -/
inductive SubmissionMode where
  /-- By the owner or the requester. -/
  | direct
  /-- By a delegate. -/
  | delegated
deriving DecidableEq

inductive ReviewDecision where
  | accepted
  | rejected
deriving DecidableEq

structure Review where
  decision : ReviewDecision
  reason : Option String
deriving DecidableEq

/-- What is done to an item by somebody, or to a file by the store of contents. -/
inductive ItemAction where
  | requestReview
  | accept
  | reject
  | prePublishOrAcknowledge
  | preAcknowledge
  | cancelPrePublishOrAcknowledge
  | cancelPreAcknowledge
  | remove
  | deliver
deriving DecidableEq

/-- The name of an action, for saying that it cannot be done. -/
def ItemAction.label : ItemAction → String
  | requestReview => "request review"
  | accept => "accept"
  | reject => "reject"
  | prePublishOrAcknowledge => "pre-publish or acknowledge"
  | preAcknowledge => "pre-acknowledge"
  | cancelPrePublishOrAcknowledge => "cancel pre-publish or acknowledge"
  | cancelPreAcknowledge => "cancel pre-acknowledge"
  | remove => "remove"
  | deliver => "deliver"

/-- The verb of an action, for saying who may not do it. -/
def ItemAction.verb : ItemAction → String
  | requestReview => "request review of"
  | prePublishOrAcknowledge => "publish"
  | preAcknowledge => "acknowledge"
  | action => action.label

/-- Why an action cannot be done to an item as it stands. -/
inductive ItemObstacle where
  | confirmed
  | status (now : ItemStatus)
  | reviewRequired
  | submittedByDelegate
  | notSubmittedByDelegate
  | otherProtocol
  | unconfirmed
  | unrestrictedDelivery
deriving DecidableEq

def ItemObstacle.describe : ItemObstacle → String
  | confirmed => "already confirmed on chain"
  | .status now => "status is " ++ now.label
  | reviewRequired => "review required"
  | submittedByDelegate => "submitted by a delegate"
  | notSubmittedByDelegate => "not submitted by a delegate"
  | otherProtocol => "confirmation protocol does not match"
  | unconfirmed => "not confirmed on chain"
  | unrestrictedDelivery => "delivery is not restricted"

end CaseRegistry
