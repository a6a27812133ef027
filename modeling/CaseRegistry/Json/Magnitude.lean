import CaseRegistry.Json.Token

/-!
How large a number may be. An integer of 64 bits is held as it is. Any other number goes into binary
floating point, where a number has 53 significant bits and lies below 2 ^ 1024: of its digits as
many are taken, from the left, as make a significand of 64 bits, and this is multiplied by a power
of ten, with rounding before and after. Numbers so large that they are rounded to 2 ^ 1024 are too
large; none is too small.
-/
namespace CaseRegistry.Json

/-- A significand times a power of ten. -/
structure Scaled where
  significand : Nat
  exponent : Int
deriving DecidableEq

namespace Scaled

/-- Adds digits to a significand for as long as it has 64 bits. Gives how many are left over. -/
def takeDigits (significand : Nat) : List Char → Nat × Nat
  | [] => (significand, 0)
  | c :: rest =>
    let next := 10 * significand + (c.toNat - '0'.toNat)
    if next < Nat.pow 2 64 then takeDigits next rest else (significand, rest.length + 1)

/-- The value of an exponent with its mark, 0 where there is none. -/
def exponentOf : List Char → Int
  | [] => 0
  | _ :: '-' :: digits => -Int.ofNat (Nat.ofDigitChars 10 digits 0)
  | _ :: '+' :: digits => Int.ofNat (Nat.ofDigitChars 10 digits 0)
  | _ :: digits => Int.ofNat (Nat.ofDigitChars 10 digits 0)

/-- The size of the number that a numeral stands for. A digit left over before the point counts as a
zero, one behind the point not at all. -/
def ofNumeral (cs : List Char) : Scaled :=
  let magnitude := match cs with
    | '-' :: rest => rest
    | _ => cs
  let (significand, zeros) := takeDigits 0 (magnitude.takeWhile Char.isDigit)
  match magnitude.dropWhile Char.isDigit with
  | '.' :: rest =>
    let fraction := rest.takeWhile Char.isDigit
    let (significand, dropped) := takeDigits significand fraction
    let places := fraction.length - dropped
    ⟨significand, Int.ofNat zeros - Int.ofNat places + exponentOf (rest.dropWhile Char.isDigit)⟩
  | tail => ⟨significand, Int.ofNat zeros + exponentOf tail⟩

/-- The nearest number with at most 53 significant bits, of two the even one. -/
def roundSignificant (n : Nat) : Nat :=
  let unit := Nat.pow 2 (n.log2 - 52)
  let quotient := n / unit
  let rest := n % unit
  if unit < 2 * rest ∨ (2 * rest = unit ∧ quotient % 2 = 1) then unit * (quotient + 1)
  else unit * quotient

/-- The least number that is rounded to 2 ^ 1024. It lies in the middle between that and the
greatest number below with 53 significant bits. -/
def bound : Nat := Nat.pow 2 1024 - Nat.pow 2 970

/-- The greatest power of ten below `bound`. -/
def maxExponent : Nat := 308

def isTooLarge (x : Scaled) : Bool :=
  match x.exponent with
  | .negSucc _ => false
  | .ofNat e =>
    if x.significand = 0 then false
    else if maxExponent < e then true
    else bound ≤ roundSignificant x.significand * roundSignificant (Nat.pow 10 e)

end Scaled

def Number.isTooLarge : Number → Bool
  | .integer value =>
    if value.natAbs < Nat.pow 2 64 then false
    else (Scaled.ofNumeral (Number.integer value).toChars).isTooLarge
  | .spelled numeral => (Scaled.ofNumeral numeral.toList).isTooLarge

end CaseRegistry.Json
