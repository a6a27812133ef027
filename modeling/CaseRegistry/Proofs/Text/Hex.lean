import CaseRegistry.Text.Hex
import Mathlib.Algebra.Group.Nat.Even

/-! Which texts are read as bytes, and as which.

A digit is read alike in either case (`digit?_toLower`), and in lower case it is the digit that is
written for its value (`toLower_of_digit?`). So a text is read as those bytes whose digits it has
in lower case and as no others (`decode_eq_some_iff`), and it is read at all exactly if it is an
even number of digits of either case (`decode_isSome_iff`). -/
namespace CaseRegistry.Hex

/-- The digits that bytes are written with. -/
def lowerDigits : List Char := "0123456789abcdef".toList

/-- A hexadecimal digit of either case. -/
def IsDigit (c : Char) : Prop := c ∈ "0123456789abcdefABCDEF".toList

instance (c : Char) : Decidable (IsDigit c) := inferInstanceAs (Decidable (_ ∈ _))

/-! ### Digits -/

/-- What holds of all ASCII characters holds of a character among them. -/
theorem of_ascii {P : Char → Prop} (all : ∀ code < 128, P (Char.ofNat code)) {c : Char}
    (ascii : c.toNat < 128) : P c :=
  Char.ofNat_toNat c ▸ all c.toNat ascii

/-- No other characters are digits, and they have no case here. -/
theorem beyond_ascii {c : Char} (beyond : ¬c.toNat < 128) :
    digit? c = none ∧ c.toLower = c ∧ ¬IsDigit c := by
  refine ⟨?_, ?_, fun digit => ?_⟩
  · unfold digit?
    simp only
    rw [if_neg (by omega), if_neg (by omega), if_neg (by omega)]
  · refine dif_neg fun upper => beyond ?_
    have : c.toNat ≤ 90 := UInt32.le_iff_toNat_le.mp upper.2
    omega
  · have small : ∀ c ∈ "0123456789abcdefABCDEF".toList, c.toNat < 128 := by simp
    exact beyond (small c digit)

theorem digit?_toLower (c : Char) : digit? c.toLower = digit? c := by
  by_cases ascii : c.toNat < 128
  · exact of_ascii (P := fun c => digit? c.toLower = digit? c) (by decide) ascii
  · rw [(beyond_ascii ascii).2.1]

/-- A digit in lower case is what is written for its value. -/
theorem toLower_of_digit? {c : Char} {n : Nat} (read : digit? c = some n) :
    n < 16 ∧ c.toLower = n.digitChar := by
  by_cases ascii : c.toNat < 128
  · have all := of_ascii (P := fun c => ∀ n ∈ digit? c, n < 16 ∧ c.toLower = n.digitChar)
      (by decide) ascii
    exact all n read
  · rw [(beyond_ascii ascii).1] at read
    cases read

theorem isDigit_iff {c : Char} : IsDigit c ↔ (digit? c).isSome := by
  by_cases ascii : c.toNat < 128
  · exact of_ascii (P := fun c => IsDigit c ↔ (digit? c).isSome) (by decide +kernel) ascii
  · simp [beyond_ascii ascii]

theorem digitChar_mem : ∀ n < 16, n.digitChar ∈ lowerDigits := by decide

/-! ### Texts -/

variable {cs : List Char} {bytes : List UInt8}

theorem mem_lowerDigits_of_mem_encode {c : Char} (mem : c ∈ encode bytes) : c ∈ lowerDigits := by
  induction bytes with
  | nil => cases mem
  | cons b rest ih =>
    have bound := b.toNat_lt
    simp only [encode, List.mem_cons] at mem
    rcases mem with rfl | rfl | mem
    · exact digitChar_mem _ (by omega)
    · exact digitChar_mem _ (by omega)
    · exact ih mem

/-- The case of digits makes no difference in reading. -/
theorem decode_map_toLower (cs : List Char) : decode (cs.map Char.toLower) = decode cs := by
  fun_induction decode cs with
  | case1 => rfl
  | case2 => rfl
  | case3 high low rest h l readLow readHigh ih =>
    simp [decode, digit?_toLower, readHigh, readLow, ih]
  | case4 high low rest no =>
    simp only [List.map_cons, decode, digit?_toLower]

/-- What is read is written as the digits of the text in lower case. -/
theorem encode_of_decode (read : decode cs = some bytes) : encode bytes = cs.map Char.toLower := by
  -- The recursion takes two digits at a time, and both halves of the byte are got back from it.
  fun_induction decode cs generalizing bytes with
  | case1 => cases read; rfl
  | case2 => cases read
  | case3 high low rest h l readLow readHigh ih =>
    obtain ⟨behind, readBehind, rfl⟩ := Option.map_eq_some_iff.mp read
    obtain ⟨smallHigh, lowerHigh⟩ := toLower_of_digit? readHigh
    obtain ⟨smallLow, lowerLow⟩ := toLower_of_digit? readLow
    have value : (UInt8.ofNat (16 * h + l)).toNat = 16 * h + l :=
      UInt8.toNat_ofNat_of_lt' (by show _ < 256; omega)
    have highHalf : (16 * h + l) / 16 = h := by omega
    have lowHalf : (16 * h + l) % 16 = l := by omega
    simp only [encode, value, highHalf, lowHalf, List.map_cons, lowerHigh, lowerLow, ih readBehind]
  | case4 => cases read

/-- A text is read as the bytes whose digits it has in lower case. -/
theorem decode_eq_some_iff : decode cs = some bytes ↔ cs.map Char.toLower = encode bytes := by
  refine ⟨fun read => (encode_of_decode read).symm, fun lower => ?_⟩
  rw [← decode_map_toLower, lower, decode_encode]

/-- A text is read exactly if it is an even number of digits. -/
theorem decode_isSome_iff : (decode cs).isSome ↔ Even cs.length ∧ ∀ c ∈ cs, IsDigit c := by
  fun_induction decode cs with
  | case1 => simp
  | case2 => simp
  | case3 high low rest h l readLow readHigh ih =>
    have highDigit : IsDigit high := isDigit_iff.mpr (by simp [readHigh])
    have lowDigit : IsDigit low := isDigit_iff.mpr (by simp [readLow])
    simp [ih, highDigit, lowDigit, Nat.even_add_one]
  | case4 high low rest no =>
    simp only [Option.isSome_none, Bool.false_eq_true, false_iff, not_and]
    intro _ digits
    obtain ⟨h, hh⟩ := Option.isSome_iff_exists.mp (isDigit_iff.mp (digits high (by simp)))
    obtain ⟨l, hl⟩ := Option.isSome_iff_exists.mp (isDigit_iff.mp (digits low (by simp)))
    exact no h l hh hl

end CaseRegistry.Hex

namespace CaseRegistry

namespace Bytes

variable {n : Nat} {cs : List Char} {bytes : Bytes n}

theorem length_toHex (bytes : Bytes n) : bytes.toHex.length = 2 * n := by
  rw [toHex, Hex.length_encode, bytes.length_eq]

theorem mem_lowerDigits_of_mem_toHex {c : Char} (mem : c ∈ bytes.toHex) : c ∈ Hex.lowerDigits :=
  Hex.mem_lowerDigits_of_mem_encode mem

theorem ofHex?_eq_some : ofHex? n cs = some bytes ↔ Hex.decode cs = some bytes.toList := by
  obtain ⟨list, long⟩ := bytes
  unfold ofHex?
  cases Hex.decode cs with
  | none => simp
  | some found =>
    simp only [Option.some.injEq]
    split
    case isTrue => simp
    case isFalse other =>
      simp only [reduceCtorEq, false_iff]
      intro same
      exact other (same ▸ long)

/-- A text is read as the bytes whose digits it has in lower case. -/
theorem ofHex?_eq_some_iff : ofHex? n cs = some bytes ↔ cs.map Char.toLower = bytes.toHex :=
  ofHex?_eq_some.trans Hex.decode_eq_some_iff

/-- A text is read exactly if it is two digits for each byte. -/
theorem ofHex?_isSome_iff :
    (ofHex? n cs).isSome ↔ cs.length = 2 * n ∧ ∀ c ∈ cs, Hex.IsDigit c := by
  constructor
  · intro read
    obtain ⟨bytes, read⟩ := Option.isSome_iff_exists.mp read
    have digits := Hex.decode_isSome_iff.mp
      (Option.isSome_iff_exists.mpr ⟨_, ofHex?_eq_some.mp read⟩)
    have lower := congrArg List.length (ofHex?_eq_some_iff.mp read)
    rw [List.length_map, length_toHex] at lower
    exact ⟨lower, digits.2⟩
  · rintro ⟨long, digits⟩
    obtain ⟨found, read⟩ := Option.isSome_iff_exists.mp
      (Hex.decode_isSome_iff.mpr ⟨⟨n, long.trans (Nat.two_mul n)⟩, digits⟩)
    have lower := congrArg List.length (Hex.decode_eq_some_iff.mp read)
    rw [List.length_map, Hex.length_encode, long] at lower
    exact Option.isSome_iff_exists.mpr
      ⟨⟨found, by omega⟩, ofHex?_eq_some.mpr read⟩

end Bytes
end CaseRegistry
