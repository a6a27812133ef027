import CaseRegistry.Error

/-!
The kinds of ledger operations that concern cases. A kind is printed as its method within the
namespace `loc`. A text is classified as a kind, as an unknown method of the namespace, which is an
error, or as foreign.
-/
namespace CaseRegistry

/-- How an operation relates to the case it names. -/
inductive TargetPolicy where
  /-- The case must be known. -/
  | mandatory
  /-- An unknown case makes the operation a no-op. -/
  | tolerant
  /-- No case is touched. -/
  | untargeted
deriving DecidableEq

inductive OperationKind where
  | createIdentity
  | createTransaction
  | createCollection
  | addFile
  | addMetadata
  | addLink
  | acknowledgeFile
  | acknowledgeMetadata
  | acknowledgeLink
  | close
  | makeVoid
  | makeVoidAndReplace
  | addCollectionItem
  | nominateIssuer
  | dismissIssuer
  | setIssuerSelection
  | sponsor
deriving DecidableEq

namespace OperationKind

def all : List OperationKind :=
  [createIdentity, createTransaction, createCollection, addFile, addMetadata, addLink,
    acknowledgeFile, acknowledgeMetadata, acknowledgeLink, close, makeVoid, makeVoidAndReplace,
    addCollectionItem, nominateIssuer, dismissIssuer, setIssuerSelection, sponsor]

def method : OperationKind → String
  | createIdentity => "create_identity"
  | createTransaction => "create_transaction"
  | createCollection => "create_collection"
  | addFile => "add_file"
  | addMetadata => "add_metadata"
  | addLink => "add_link"
  | acknowledgeFile => "acknowledge_file"
  | acknowledgeMetadata => "acknowledge_metadata"
  | acknowledgeLink => "acknowledge_link"
  | close => "close"
  | makeVoid => "make_void"
  | makeVoidAndReplace => "make_void_and_replace"
  | addCollectionItem => "add_collection_item"
  | nominateIssuer => "nominate_issuer"
  | dismissIssuer => "dismiss_issuer"
  | setIssuerSelection => "set_issuer_selection"
  | sponsor => "sponsor"

def namespaceName : String := "loc"

/-- The kind in print. -/
def toString (kind : OperationKind) : String := namespaceName ++ "." ++ kind.method

instance : ToString OperationKind := ⟨toString⟩

/-- What follows the first point of a text, if what precedes it is the namespace. -/
def methodOf? (text : List Char) : Option (List Char) :=
  if text.takeWhile (· ≠ '.') = namespaceName.toList then
    match text.dropWhile (· ≠ '.') with
    | _ :: method => some method
    | [] => none
  else none

/-- The kind a text prints; `none` for a foreign text. -/
def classify (text : String) : Except Error (Option OperationKind) :=
  match methodOf? text.toList with
  | none => .ok none
  | some method =>
    match all.find? (·.method.toList = method) with
    | some kind => .ok (some kind)
    | none => .error (.unexpectedOperation text)

def targetPolicy : OperationKind → TargetPolicy
  | addCollectionItem => .tolerant
  | nominateIssuer | dismissIssuer | setIssuerSelection | sponsor => .untargeted
  | _ => .mandatory

end OperationKind
end CaseRegistry
