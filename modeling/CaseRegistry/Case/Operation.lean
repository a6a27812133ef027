import CaseRegistry.Case.Items
import CaseRegistry.Case.Lifecycle

/-!
Operations on a case as values, so that a history of a case is a list of them. `Case.apply` does
one; the case after it is there whether or not it succeeds, and a reply if it does.
-/
namespace CaseRegistry

inductive CaseOperation where
  | submit
  | accept (on : Timestamp)
  | reject (reason : String) (on : Timestamp)
  | rework
  | setCreatedDate (on : Timestamp)
  | setCreationFees (fees : Fees)
  | preClose
  | close (on : Timestamp)
  | preVoid (reason : String)
  | makeVoid (on : Timestamp)
  | voidAndReplace (replacer : CaseId) (on : Timestamp)
  | startIdentityVerification
  | completeIdentityVerification (success : Bool)
  | addDelegate (actor delegate : Identity)
  | removeDelegate (actor delegate : Identity)
  | addCollectionItem (itemId : String) (on : Timestamp) (fees : Fees)
  | addItem (kind : ItemKind) (submitter : Identity) (payload : kind.Payload)
  | removeItem (kind : ItemKind) (actor : Identity) (key : kind.Key)
  | performOnItem (kind : ItemKind) (step : ItemStep) (actor : Identity) (key : kind.Key)
  | stampItem (kind : ItemKind) (stamp : ItemStamp) (key : kind.Key)
  | setRestrictedDelivery (actor : Identity) (hash : ContentHash) (restricted : Bool)
  | addDeliveredCopy (hash : ContentHash) (copy : DeliveredCopy)

/-- What an operation on a case says of itself. -/
inductive CaseReply where
  | done
  | outcome (outcome : Outcome)
  | changes (set : ChangeSet)
deriving DecidableEq

/-- The change set of a reply; only operations on items change items. -/
def CaseReply.changeSet : CaseReply → ChangeSet
  | .done | .outcome _ => ∅
  | .changes set => set

namespace Case

/-- Does an operation. -/
def apply : CaseOperation → Action Case CaseReply
  | .submit => silently submit
  | .accept on => silently (accept on)
  | .reject reason on => silently (reject reason on)
  | .rework => silently rework
  | .setCreatedDate on => do
    let outcome ← setCreatedDate on
    return .outcome outcome
  | .setCreationFees fees => withOutcome fun c => .ok (c.setCreationFees fees)
  | .preClose => silently preClose
  | .close on => withOutcome (close on)
  | .preVoid reason => silently (preVoid reason)
  | .makeVoid on => withOutcome (makeVoid on)
  | .voidAndReplace replacer on => withOutcome (voidAndReplace replacer on)
  | .startIdentityVerification => silently startIdentityVerification
  | .completeIdentityVerification success => silently (completeIdentityVerification success)
  | .addDelegate actor delegate => silently (addDelegate actor delegate)
  | .removeDelegate actor delegate => silently (removeDelegate actor delegate)
  | .addCollectionItem itemId on fees => withOutcome (addCollectionItem itemId on fees)
  | .addItem kind submitter payload => withChanges (addItem kind submitter payload)
  | .removeItem kind actor key => withChanges (removeItem kind actor key)
  | .performOnItem kind step actor key => withChanges (performOnItem kind step actor key)
  | .stampItem kind stamp key => withChanges (stampItem kind stamp key)
  | .setRestrictedDelivery actor hash restricted =>
    withChanges (setRestrictedDelivery actor hash restricted)
  | .addDeliveredCopy hash copy => withChanges (addDeliveredCopy hash copy)
where
  silently (f : Case → Except Error Case) : Action Case CaseReply :=
    Action.step fun c => (f c).map fun after => (after, .done)
  withOutcome (f : Case → Except Error (Case × Outcome)) : Action Case CaseReply :=
    Action.step fun c => (f c).map fun (after, outcome) => (after, .outcome outcome)
  withChanges (f : Case → Except Error (Case × ChangeSet)) : Action Case CaseReply :=
    Action.step fun c => (f c).map fun (after, changes) => (after, .changes changes)

/-- The cases that can come about: made by one of the three makers and then worked on, operations
that fail included. -/
inductive Reachable : Case → Prop where
  | draft {d : CaseDefinition} {c : Case} : draft d = .ok c → Reachable c
  | request {d : CaseDefinition} {c : Case} : request d = .ok c → Reachable c
  | openNew {d : CaseDefinition} {on : Timestamp} {c : Case} : openNew d on = .ok c → Reachable c
  | apply {c : Case} (op : CaseOperation) : Reachable c → Reachable ((Case.apply op).run c).2

end Case
end CaseRegistry
