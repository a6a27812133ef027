import CaseRegistry.Json.Basic
import CaseRegistry.Text.Decimal
import CaseRegistry.Text.Hex

/-!
JSON tokens: what a JSON text is made of once blanks are dropped, and how one token is spelled.
Strings are written raw but for the quote, the backslash and the control characters, which are
escaped; every escape of the format is read.
-/
namespace CaseRegistry.Json

inductive Token where
  | openArray
  | closeArray
  | openObject
  | closeObject
  | comma
  | colon
  | null
  | bool (value : Bool)
  | number (value : Number)
  | string (value : String)
  /-- A string in which half of a surrogate pair stands alone, so that it has no characters. -/
  | garbled
deriving DecidableEq

/-! ### Numbers -/

/-- The digits of an integer part: a zero alone, or a run that starts with no zero. -/
def IsWhole (cs : List Char) : Prop :=
  cs ≠ [] ∧ cs.all Char.isDigit ∧ (cs.head? = some '0' → cs = ['0'])

instance (cs : List Char) : Decidable (IsWhole cs) := inferInstanceAs (Decidable (_ ∧ _ ∧ _))

def IsExponent : List Char → Bool
  | [] => true
  | c :: rest =>
    let digits := match rest with
      | '+' :: digits => digits
      | '-' :: digits => digits
      | digits => digits
    (c == 'e' || c == 'E') && !digits.isEmpty && digits.all Char.isDigit

/-- What may follow the integer part: a fraction, an exponent, both or neither. -/
def IsTail : List Char → Bool
  | '.' :: rest => !(rest.takeWhile Char.isDigit).isEmpty && IsExponent (rest.dropWhile Char.isDigit)
  | cs => IsExponent cs

/-- Reads a numeral. -/
def number? (cs : List Char) : Option Number :=
  let (negative, magnitude) := match cs with
    | '-' :: rest => (true, rest)
    | _ => (false, cs)
  let whole := magnitude.takeWhile Char.isDigit
  let tail := magnitude.dropWhile Char.isDigit
  if IsWhole whole ∧ IsTail tail then
    match tail, Decimal.ofDigits? whole with
    | [], some n =>
      if negative ∧ n = 0 then some (.spelled (String.ofList cs))
      else some (.integer (if negative then -n else n))
    | _, _ => some (.spelled (String.ofList cs))
  else none

def Number.toChars : Number → List Char
  | .integer value =>
    if value < 0 then '-' :: Decimal.digits value.natAbs else Decimal.digits value.natAbs
  | .spelled numeral => numeral.toList

/-! ### Strings -/

/-- A character as it stands between quotes. -/
def escape (c : Char) : List Char :=
  if c = '"' then ['\\', '"']
  else if c = '\\' then ['\\', '\\']
  else if c.toNat = 8 then ['\\', 'b']
  else if c.toNat = 9 then ['\\', 't']
  else if c.toNat = 10 then ['\\', 'n']
  else if c.toNat = 12 then ['\\', 'f']
  else if c.toNat = 13 then ['\\', 'r']
  else if c.toNat < 32 then
    ['\\', 'u', '0', '0', (c.toNat / 16).digitChar, (c.toNat % 16).digitChar]
  else [c]

/-- What a backslash and the given character stand for. -/
def simpleEscape? : Char → Option Nat
  | '"' => some 34
  | '\\' => some 92
  | '/' => some 47
  | 'b' => some 8
  | 'f' => some 12
  | 'n' => some 10
  | 'r' => some 13
  | 't' => some 9
  | _ => none

def hexQuad? (a b c d : Char) : Option Nat := do
  let a ← Hex.digit? a
  let b ← Hex.digit? b
  let c ← Hex.digit? c
  let d ← Hex.digit? d
  some (4096 * a + 256 * b + 16 * c + d)

/-- Resolves the escapes between two quotes. An escape may stand for half of a surrogate pair, so
this gives numbers and not yet characters. Control characters must be escaped. -/
def units? : List Char → Option (List Nat)
  | [] => some []
  | '\\' :: 'u' :: a :: b :: c :: d :: rest =>
    match hexQuad? a b c d with
    | some unit => (units? rest).map (unit :: ·)
    | none => none
  | '\\' :: c :: rest =>
    match simpleEscape? c with
    | some unit => (units? rest).map (unit :: ·)
    | none => none
  | c :: rest => if c = '\\' ∨ c.toNat < 32 then none else (units? rest).map (c.toNat :: ·)

def IsHighSurrogate (unit : Nat) : Prop := 0xD800 ≤ unit ∧ unit < 0xDC00

def IsLowSurrogate (unit : Nat) : Prop := 0xDC00 ≤ unit ∧ unit < 0xE000

instance (unit : Nat) : Decidable (IsHighSurrogate unit) := inferInstanceAs (Decidable (_ ∧ _))

instance (unit : Nat) : Decidable (IsLowSurrogate unit) := inferInstanceAs (Decidable (_ ∧ _))

/-- Joins surrogate pairs, refusing a half without its other half. -/
def joinUnits? : List Nat → Option (List Char)
  | [] => some []
  | [unit] =>
    if IsHighSurrogate unit ∨ IsLowSurrogate unit then none else some [Char.ofNat unit]
  | unit :: next :: rest =>
    if IsHighSurrogate unit then
      if IsLowSurrogate next then
        (joinUnits? rest).map
          (Char.ofNat (0x10000 + 0x400 * (unit - 0xD800) + (next - 0xDC00)) :: ·)
      else none
    else if IsLowSurrogate unit then none
    else (joinUnits? (next :: rest)).map (Char.ofNat unit :: ·)

/-- The token of what stands between two quotes. -/
def quoted? (cs : List Char) : Option Token :=
  (units? cs).map fun units =>
    match joinUnits? units with
    | some text => .string (String.ofList text)
    | none => .garbled

/-! ### Tokens -/

/-- The token of a run of characters between punctuation and blanks: a keyword or a number. -/
def word? (cs : List Char) : Option Token :=
  if cs = "null".toList then some .null
  else if cs = "true".toList then some (.bool true)
  else if cs = "false".toList then some (.bool false)
  else (number? cs).map Token.number

def Token.toChars : Token → List Char
  | .openArray => ['[']
  | .closeArray => [']']
  | .openObject => ['\x7b']
  | .closeObject => ['\x7d']
  | .comma => [',']
  | .colon => [':']
  | .null => "null".toList
  | .bool true => "true".toList
  | .bool false => "false".toList
  | .number value => value.toChars
  | .string value => '"' :: value.toList.flatMap escape ++ ['"']
  | .garbled => ['"', '\\', 'u', 'd', '8', '0', '0', '"']

end CaseRegistry.Json
