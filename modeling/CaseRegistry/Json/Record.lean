import CaseRegistry.Json.Codec

/-!
Records: JSON objects with known fields. A record is a list of slots, each with the name of a
field, its codec and what holds when the field is left out. The object form names its fields, in
any order; unknown fields are passed over, and a known field must not be given twice. The list
form is an array with the values of the fields in their order. Both are read, the object form is
written.
-/
namespace CaseRegistry.Json

structure Slot (α : Type) where
  name : String
  /-- What is written, if anything. -/
  write : α → Option Json
  read : Json → Option α
  /-- The value where an object has no such field; without one the field is due. -/
  missing : Option α
  /-- The value where a list ends before this field; without one the field is due. -/
  beyond : Option α

namespace Slot

variable {α : Type}

/-- A field that is always there. -/
def required (name : String) (codec : Codec α) : Slot α where
  name
  write a := some (codec.write a)
  read := codec.read
  missing := none
  beyond := none

/-- A field that is left out when it has no value, and read as having none when it is null. -/
def optional (name : String) (codec : Codec α) : Slot (Option α) where
  name
  write a := a.map codec.write
  read
    | .null => some none
    | j => (codec.read j).map some
  missing := some none
  beyond := none

/-- A field that is always written and stands for `default` when it is left out. -/
def defaulted (name : String) (codec : Codec α) (default : α) : Slot α :=
  { required name codec with missing := some default, beyond := some default }

/-- An optional field that a list may end before. -/
def trailing (name : String) (codec : Codec α) : Slot (Option α) :=
  { optional name codec with beyond := some none }

end Slot

/-- The slots of a record, whose values form the given type. -/
inductive Record : Type → Type 1 where
  | nil : Record Unit
  | cons {α β : Type} (slot : Slot α) (rest : Record β) : Record (α × β)

/-- The values of all fields with the given name. -/
def valuesOf (name : String) (fields : List (String × Json)) : List Json :=
  fields.filterMap fun field => if field.1 = name then some field.2 else none

namespace Record

variable {α β : Type}

def fields : {β : Type} → Record β → β → List (String × Json)
  | _, .nil, _ => []
  | _, .cons slot rest, (a, b) =>
    match slot.write a with
    | some value => (slot.name, value) :: rest.fields b
    | none => rest.fields b

def ofFields? : {β : Type} → Record β → List (String × Json) → Option β
  | _, .nil, _ => some ()
  | _, .cons slot rest, all => do
    let a ← match valuesOf slot.name all with
      | [] => slot.missing
      | [value] => slot.read value
      | _ => none
    let b ← rest.ofFields? all
    some (a, b)

def ofElements? : {β : Type} → Record β → List Json → Option β
  | _, .nil, [] => some ()
  | _, .nil, _ :: _ => none
  | _, .cons slot rest, [] => do
    let a ← slot.beyond
    let b ← rest.ofElements? []
    some (a, b)
  | _, .cons slot rest, value :: values => do
    let a ← slot.read value
    let b ← rest.ofElements? values
    some (a, b)

def read (record : Record β) : Json → Option β
  | .object all => record.ofFields? all
  | .array elements => record.ofElements? elements
  | _ => none

/-- The codec of a type whose values are taken apart into the fields of a record and put together
from them. -/
def codec (record : Record β) (apart : α → β) (together : β → α) : Codec α where
  write a := .object (record.fields (apart a))
  read j := (record.read j).map together

end Record
end CaseRegistry.Json
