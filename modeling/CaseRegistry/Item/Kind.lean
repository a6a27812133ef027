import CaseRegistry.CaseId
import CaseRegistry.Identity
import CaseRegistry.Time.Timestamp

/-!
The three kinds of items a case holds, and for each kind what an item of it carries and which
part of that is its key. Keys are unique among the items of one kind in one case; a reference
names an item by its kind and its key in print.
-/
namespace CaseRegistry

inductive ItemKind where
  | file
  | metadata
  | link
deriving DecidableEq

/-- The hash of a content, compared as it is spelled. -/
structure ContentHash where
  text : String
deriving DecidableEq

/-- A copy of a file that was handed to a recipient. -/
structure DeliveredCopy where
  hash : ContentHash
  recipient : Identity
  deliveredOn : Timestamp
deriving DecidableEq

structure FilePayload where
  hash : ContentHash
  name : String
  size : Nat
  contentType : String
  /-- Where the content is kept. -/
  storageRef : String
  nature : String
  restrictedDelivery : Bool
  delivered : List DeliveredCopy
deriving DecidableEq

structure MetadataPayload where
  name : String
  value : String
deriving DecidableEq

/-- A link to another case. -/
structure LinkPayload where
  target : CaseId
  nature : String
deriving DecidableEq

namespace ItemKind

def all : List ItemKind := [file, metadata, link]

def label : ItemKind → String
  | file => "file"
  | metadata => "metadata"
  | link => "link"

/-- What an item of a kind carries. -/
@[reducible] def Payload : ItemKind → Type
  | file => FilePayload
  | metadata => MetadataPayload
  | link => LinkPayload

/-- What tells items of a kind apart. -/
@[reducible] def Key : ItemKind → Type
  | file => ContentHash
  | metadata => String
  | link => CaseId

instance : (kind : ItemKind) → DecidableEq kind.Payload
  | file => inferInstanceAs (DecidableEq FilePayload)
  | metadata => inferInstanceAs (DecidableEq MetadataPayload)
  | link => inferInstanceAs (DecidableEq LinkPayload)

instance : (kind : ItemKind) → DecidableEq kind.Key
  | file => inferInstanceAs (DecidableEq ContentHash)
  | metadata => inferInstanceAs (DecidableEq String)
  | link => inferInstanceAs (DecidableEq CaseId)

def keyOf : (kind : ItemKind) → kind.Payload → kind.Key
  | file, payload => payload.hash
  | metadata, payload => payload.name
  | link, payload => payload.target

/-- A key in print. -/
def printKey : (kind : ItemKind) → kind.Key → String
  | file, key => key.text
  | metadata, key => key
  | link, key => key.toString

/-- The key that a text names. -/
def readKey? : (kind : ItemKind) → String → Option kind.Key
  | file, text => some ⟨text⟩
  | metadata, text => some text
  | link, text => CaseId.ofString? text

theorem readKey?_printKey (kind : ItemKind) (key : kind.Key) :
    kind.readKey? (kind.printKey key) = some key := by
  cases kind
  · rfl
  · rfl
  · exact CaseId.ofString?_toString key

/-- Different keys have different prints. -/
theorem printKey_inj {kind : ItemKind} {a b : kind.Key} :
    kind.printKey a = kind.printKey b ↔ a = b := by
  refine ⟨fun h => ?_, congrArg _⟩
  have := congrArg kind.readKey? h
  simpa [readKey?_printKey] using this

end ItemKind

/-- An item by its kind and printed key. -/
structure ItemRef where
  kind : ItemKind
  key : String
deriving DecidableEq

def ItemKind.ref (kind : ItemKind) (key : kind.Key) : ItemRef := ⟨kind, kind.printKey key⟩

theorem ItemKind.ref_inj {kind : ItemKind} {a b : kind.Key} :
    kind.ref a = kind.ref b ↔ a = b := by
  simp [ItemKind.ref, ItemKind.printKey_inj]

instance : ToString ItemKind := ⟨ItemKind.label⟩

end CaseRegistry
