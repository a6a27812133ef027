import CaseRegistry.Text.Hex

/-!
Case identifiers. An identifier is sixteen bytes, written as thirty-two lower-case hexadecimal
digits in groups of 8, 4, 4, 4 and 12 with hyphens between them. It is also read without the
hyphens, and in the hyphenated form inside braces or after `urn:uuid:`; digits and that word may
be of either case. `ofChars?_toChars` says that what is written reads back.
-/
namespace CaseRegistry

structure CaseId where
  bytes : Bytes 16
deriving DecidableEq

namespace CaseId

/-- Writes digits in groups of the given sizes, all that is left going into the last one. -/
def hyphenate : List Nat → List Char → List Char
  | [], cs => cs
  | n :: sizes, cs => cs.take n ++ '-' :: hyphenate sizes (cs.drop n)

/-- Takes the hyphens out again, refusing a text whose groups have other sizes. -/
def unhyphenate? : List Nat → List Char → Option (List Char)
  | [], cs => some cs
  | n :: sizes, cs =>
    match cs.drop n with
    | '-' :: rest => (unhyphenate? sizes rest).map (cs.take n ++ ·)
    | _ => none

/-- The sizes of the groups before the last. -/
def groupSizes : List Nat := [8, 4, 4, 4]

def toChars (id : CaseId) : List Char := hyphenate groupSizes id.bytes.toHex

def toString (id : CaseId) : String := String.ofList id.toChars

/-- Reads thirty-two digits. -/
def ofDigits? (cs : List Char) : Option CaseId := (Bytes.ofHex? 16 cs).map CaseId.mk

def ofHyphenated? (cs : List Char) : Option CaseId :=
  (unhyphenate? groupSizes cs).bind ofDigits?

def urnMark : List Char := "urn:uuid:".toList

/-- What stands inside braces or after the urn mark. -/
def undecorated? : List Char → Option (List Char)
  | '{' :: rest => if rest.getLast? = some '}' then some rest.dropLast else none
  | cs =>
    if (cs.take urnMark.length).map Char.toLower = urnMark then some (cs.drop urnMark.length)
    else none

def ofChars? (cs : List Char) : Option CaseId :=
  (ofHyphenated? cs).or ((ofDigits? cs).or ((undecorated? cs).bind ofHyphenated?))

def ofString? (text : String) : Option CaseId := ofChars? text.toList

theorem unhyphenate?_hyphenate (sizes : List Nat) (cs : List Char) (enough : sizes.foldr (· + ·) 0 ≤ cs.length) :
    unhyphenate? sizes (hyphenate sizes cs) = some cs := by
  induction sizes generalizing cs with
  | nil => rfl
  | cons n sizes ih =>
    have taken : (cs.take n).length = n := by
      simp only [List.foldr_cons] at enough
      simp only [List.length_take]
      omega
    have rest : sizes.foldr (· + ·) 0 ≤ (cs.drop n).length := by
      simp only [List.foldr_cons] at enough
      simp only [List.length_drop]
      omega
    have dropped : (hyphenate (n :: sizes) cs).drop n = '-' :: hyphenate sizes (cs.drop n) := by
      simp [hyphenate, taken]
    have kept : (hyphenate (n :: sizes) cs).take n = cs.take n := by
      simp [hyphenate, taken]
    simp [unhyphenate?, dropped, kept, ih _ rest]

theorem ofHyphenated?_toChars (id : CaseId) : ofHyphenated? id.toChars = some id := by
  have long : groupSizes.foldr (· + ·) 0 ≤ id.bytes.toHex.length := by
    simp [Bytes.toHex, Hex.length_encode, id.bytes.length_eq, groupSizes]
  simp [ofHyphenated?, toChars, unhyphenate?_hyphenate _ _ long, ofDigits?, Bytes.ofHex?_toHex]

theorem ofChars?_toChars (id : CaseId) : ofChars? id.toChars = some id := by
  simp [ofChars?, ofHyphenated?_toChars]

theorem ofString?_toString (id : CaseId) : ofString? id.toString = some id := by
  simp [ofString?, toString, ofChars?_toChars]

end CaseId

instance : ToString CaseId := ⟨CaseId.toString⟩

end CaseRegistry
