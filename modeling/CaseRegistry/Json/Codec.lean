import CaseRegistry.Json.Basic

/-!
Codecs: how values of a type are written as JSON and read back. A codec is a writer and a reader
side by side, and codecs of larger types are put together from those of their parts, so that a
format is described once for both directions. A reader refuses what it does not know by `none`.
-/
namespace CaseRegistry.Json

structure Codec (α : Type) where
  write : α → Json
  read : Json → Option α

namespace Codec

variable {α β : Type}

/-- Any value that can be read through and through, with the fields of its objects in order. -/
def free : Codec Json where
  write := id
  read j := if j.isReadable then some j.canonical else none

def bool : Codec Bool where
  write := Json.bool
  read
    | .bool value => some value
    | _ => none

def string : Codec String where
  write := Json.string
  read := Json.string?

/-- Natural numbers that fit in the given number of bits. -/
def word (bits : Nat) : Codec Nat where
  write := Json.nat
  read
    | .number (.integer (.ofNat n)) => if n < Nat.pow 2 bits then some n else none
    | _ => none

/-- Values that are written as a text of their own. -/
def text (write : α → String) (read : String → Option α) : Codec α where
  write a := .string (write a)
  read j := j.string?.bind read

/-- Values of another type under a different name for them. -/
def iso (codec : Codec α) (into : α → β) (back : β → α) : Codec β where
  write b := codec.write (back b)
  read j := (codec.read j).map into

/-- A list is written as an array. -/
def list (codec : Codec α) : Codec (List α) where
  write as := .array (as.map codec.write)
  read
    | .array elements => elements.mapM codec.read
    | _ => none

/-- One of finitely many names, alone or as an object whose one field has the name and is null. -/
def name (toName : α → String) (all : List α) : Codec α where
  write a := .string (toName a)
  read
    | .string n => all.find? (toName · = n)
    | .object [(n, .null)] => all.find? (toName · = n)
    | _ => none

end Codec
end CaseRegistry.Json
