/-!
JSON values. An object keeps its fields in the order they are written, repeated names included;
`canonical` gives the form in which two values with the same content are equal. A text may hold
values that obey the rules of spelling and still cannot be taken from it; they do no harm where
nobody reads them.
-/
namespace CaseRegistry

/-- A number: an integer, or a numeral with a fraction or an exponent, kept as it is spelled. The
numeral `-0` is spelled too, being no integer. -/
inductive Json.Number where
  | integer (value : Int)
  | spelled (numeral : String)
deriving DecidableEq

inductive Json where
  | null
  | bool (value : Bool)
  | number (value : Json.Number)
  | string (value : String)
  | array (elements : List Json)
  | object (fields : List (String × Json))
  /-- A value that is spelled by the rules and cannot be read: a string with half of a surrogate
  pair, a number that is too large, an array or object that stands too deep, or an object that has a
  name which cannot be read. -/
  | unreadable

namespace Json

instance : Inhabited Json := ⟨null⟩

def integer (value : Int) : Json := number (.integer value)

def nat (value : Nat) : Json := integer value

/-- The field of an object by name, the last one if the name is repeated. -/
def get? (name : String) : Json → Option Json
  | object fields => (fields.findRev? (·.1 = name)).map Prod.snd
  | _ => none

def string? : Json → Option String
  | string value => some value
  | _ => none

/-- Puts a field among fields in the order of their names, in place of one that has its name. -/
def insertField (name : String) (value : Json) : List (String × Json) → List (String × Json)
  | [] => [(name, value)]
  | (other, old) :: rest =>
    if name = other then (name, value) :: rest
    else if name < other then (name, value) :: (other, old) :: rest
    else (other, old) :: insertField name value rest

mutual

/-- Orders the fields of every object by name, code point by code point; of fields with one name
the last stays. -/
def canonical : Json → Json
  | array elements => array (canonicalElements elements)
  | object fields => object (canonicalFields [] fields)
  | null => null
  | bool value => bool value
  | number value => number value
  | string value => string value
  | unreadable => unreadable

def canonicalElements : List Json → List Json
  | [] => []
  | element :: rest => canonical element :: canonicalElements rest

/-- Puts fields among those that are in order already. -/
def canonicalFields (done : List (String × Json)) : List (String × Json) → List (String × Json)
  | [] => done
  | (name, value) :: rest => canonicalFields (insertField name (canonical value) done) rest

end

mutual

/-- The numbers that occur in a value, in order. -/
def numbers : Json → List Number
  | number value => [value]
  | array elements => numbersOfElements elements
  | object fields => numbersOfFields fields
  | null | bool _ | string _ | unreadable => []

def numbersOfElements : List Json → List Number
  | [] => []
  | element :: rest => numbers element ++ numbersOfElements rest

def numbersOfFields : List (String × Json) → List Number
  | [] => []
  | (_, value) :: rest => numbers value ++ numbersOfFields rest

end

mutual

/-- Whether nothing in a value is unreadable. -/
def isReadable : Json → Bool
  | unreadable => false
  | array elements => areReadableElements elements
  | object fields => areReadableFields fields
  | null | bool _ | number _ | string _ => true

def areReadableElements : List Json → Bool
  | [] => true
  | element :: rest => isReadable element && areReadableElements rest

def areReadableFields : List (String × Json) → Bool
  | [] => true
  | (_, value) :: rest => isReadable value && areReadableFields rest

end

end Json
end CaseRegistry
