/-!
Bytes in hexadecimal: two digits a byte, the high half first. Bytes are written in lower case;
digits of either case are read, and nothing else. `decode_encode` says that what is written reads
back.
-/
namespace CaseRegistry.Hex

/-- The value of a hexadecimal digit of either case. -/
def digit? (c : Char) : Option Nat :=
  let n := c.toNat
  if 48 ≤ n ∧ n ≤ 57 then some (n - 48)
  else if 97 ≤ n ∧ n ≤ 102 then some (n - 87)
  else if 65 ≤ n ∧ n ≤ 70 then some (n - 55)
  else none

def encode : List UInt8 → List Char
  | [] => []
  | b :: rest => (b.toNat / 16).digitChar :: (b.toNat % 16).digitChar :: encode rest

/-- Refuses an odd number of digits. -/
def decode : List Char → Option (List UInt8)
  | [] => some []
  | [_] => none
  | high :: low :: rest =>
    match digit? high, digit? low with
    | some h, some l => (decode rest).map (UInt8.ofNat (16 * h + l) :: ·)
    | _, _ => none

theorem digit?_digitChar : ∀ n < 16, digit? n.digitChar = some n := by decide

theorem decode_encode (bytes : List UInt8) : decode (encode bytes) = some bytes := by
  induction bytes with
  | nil => rfl
  | cons b rest ih =>
    have bound := b.toNat_lt
    have high := digit?_digitChar (b.toNat / 16) (by omega)
    have low := digit?_digitChar (b.toNat % 16) (by omega)
    have whole : 16 * (b.toNat / 16) + b.toNat % 16 = b.toNat := by omega
    simp [encode, decode, high, low, ih, whole]

theorem length_encode (bytes : List UInt8) : (encode bytes).length = 2 * bytes.length := by
  induction bytes with
  | nil => rfl
  | cons b rest ih => simp only [encode, List.length_cons, ih]; omega

end CaseRegistry.Hex

namespace CaseRegistry

/-- A string of exactly `n` bytes. -/
structure Bytes (n : Nat) where
  toList : List UInt8
  length_eq : toList.length = n
deriving DecidableEq

namespace Bytes

def toHex {n : Nat} (bytes : Bytes n) : List Char := Hex.encode bytes.toList

/-- Reads `2 * n` hexadecimal digits. -/
def ofHex? (n : Nat) (cs : List Char) : Option (Bytes n) :=
  match Hex.decode cs with
  | some bytes => if h : bytes.length = n then some ⟨bytes, h⟩ else none
  | none => none

theorem ofHex?_toHex {n : Nat} (bytes : Bytes n) : ofHex? n bytes.toHex = some bytes := by
  simp [ofHex?, toHex, Hex.decode_encode, bytes.length_eq]

end Bytes
end CaseRegistry
