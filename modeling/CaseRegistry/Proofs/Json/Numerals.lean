import CaseRegistry.Json.Magnitude
import CaseRegistry.Json.Lexer
import CaseRegistry.Proofs.Text.Digits

/-! Numbers in print.

A number that was read is written as it was spelled or as an integer, and reads back either way
(`number?_toChars_of_number?`). No character of a numeral ends a word, so that a numeral is cut off
as a whole. An integer of 128 bits is never too large to be held (`isTooLarge_integer`). -/
namespace CaseRegistry.Json

open Decimal (digits)

variable {cs : List Char} {c : Char}

/-! ### Reading back -/

theorem isWhole_digits (n : Nat) : IsWhole (digits n) := by
  refine ⟨Decimal.digits_ne_nil n, ?_, fun zero => ?_⟩
  · exact List.all_eq_true.2 fun _ => Decimal.isDigit_of_mem_digits
  · rw [Decimal.digits_eq_zero_of_head n zero]
    rfl

theorem takeWhile_digits (n : Nat) : (digits n).takeWhile Char.isDigit = digits n := by
  simpa using Decimal.takeWhile_digits (fun _ => Decimal.isDigit_of_mem_digits (n := n))
    Decimal.stopsDigits_nil

theorem dropWhile_digits (n : Nat) : (digits n).dropWhile Char.isDigit = [] := by
  simpa using Decimal.dropWhile_digits (fun _ => Decimal.isDigit_of_mem_digits (n := n))
    Decimal.stopsDigits_nil

/-- No sign stands in front of the digits. -/
theorem digits_ne_sign (n : Nat) (rest : List Char) : digits n ≠ '-' :: rest := by
  intro same
  have : '-'.isDigit := Decimal.isDigit_of_mem_digits (n := n) (by simp [same])
  exact absurd this (by decide)

theorem number?_digits (n : Nat) : number? (digits n) = some (.integer n) := by
  unfold number?
  split
  next negative magnitude sign =>
    split at sign
    · next rest same => exact absurd same (digits_ne_sign n rest)
    · cases sign
      simp [takeWhile_digits, dropWhile_digits, isWhole_digits, IsTail, IsExponent,
        Decimal.ofDigits?_digits]

theorem number?_negative {n : Nat} (positive : 0 < n) :
    number? ('-' :: digits n) = some (.integer (-n)) := by
  simp [number?, takeWhile_digits, dropWhile_digits, isWhole_digits, IsTail, IsExponent,
    Decimal.ofDigits?_digits, Nat.ne_of_gt positive]

theorem number?_integer (value : Int) :
    number? (Number.integer value).toChars = some (.integer value) := by
  simp only [Number.toChars]
  split
  · next negative =>
    rw [number?_negative (by omega), ← Int.eq_neg_natAbs_of_nonpos (by omega)]
  · next natural =>
    rw [number?_digits, Int.natAbs_of_nonneg (by omega)]

theorem number?_toChars_of_number? {n : Number} (read : number? cs = some n) :
    number? n.toChars = some n := by
  cases n with
  | integer value => exact number?_integer value
  | spelled numeral =>
    have same : numeral = String.ofList cs := by
      unfold number? at read
      grind
    rw [same] at read ⊢
    simpa [Number.toChars] using read

/-! ### Characters -/

/-- What numerals are made of. -/
def IsNumeric (c : Char) : Prop := c.isDigit ∨ c ∈ ['-', '+', '.', 'e', 'E']

theorem mem_of_endsWord (ends : Lexer.endsWord c) :
    c ∈ [' ', '\t', '\n', '\r', '[', ']', '\x7b', '\x7d', ',', ':', '"'] := by
  unfold Lexer.endsWord Lexer.isBlank Lexer.punctuation? at ends
  split at ends <;> simp_all [or_assoc]

theorem not_endsWord_of_isNumeric (numeric : IsNumeric c) : ¬Lexer.endsWord c := by
  intro ends
  have mark := mem_of_endsWord ends
  simp only [List.mem_cons, List.not_mem_nil, or_false] at mark
  rcases mark with rfl | rfl | rfl | rfl | rfl | rfl | rfl | rfl | rfl | rfl | rfl <;>
    exact absurd numeric (by simp [IsNumeric])

theorem isNumeric_of_digits (digits : cs.all Char.isDigit) : ∀ c ∈ cs, IsNumeric c :=
  fun c mem => .inl (List.all_eq_true.1 digits c mem)

/-- What follows a run of digits decides for the whole. -/
theorem isNumeric_of_dropWhile (rest : ∀ c ∈ cs.dropWhile Char.isDigit, IsNumeric c) :
    ∀ c ∈ cs, IsNumeric c := by
  intro c mem
  rw [← List.takeWhile_append_dropWhile (p := Char.isDigit) (l := cs)] at mem
  rcases List.mem_append.1 mem with run | behind
  · exact isNumeric_of_digits List.all_takeWhile c run
  · exact rest c behind

theorem isNumeric_of_isExponent (exponent : IsExponent cs) : ∀ c ∈ cs, IsNumeric c := by
  unfold IsExponent at exponent
  split at exponent
  · simp
  · next mark rest =>
    simp only [Bool.and_eq_true, Bool.or_eq_true, beq_iff_eq] at exponent
    obtain ⟨⟨letter, -⟩, run⟩ := exponent
    have behind : ∀ c ∈ rest, IsNumeric c := by
      split at run
      · exact List.forall_mem_cons.2 ⟨by simp [IsNumeric], isNumeric_of_digits run⟩
      · exact List.forall_mem_cons.2 ⟨by simp [IsNumeric], isNumeric_of_digits run⟩
      · exact isNumeric_of_digits run
    refine List.forall_mem_cons.2 ⟨?_, behind⟩
    rcases letter with rfl | rfl <;> simp [IsNumeric]

theorem isNumeric_of_isTail (tail : IsTail cs) : ∀ c ∈ cs, IsNumeric c := by
  unfold IsTail at tail
  split at tail
  · next rest =>
    rw [Bool.and_eq_true] at tail
    refine List.forall_mem_cons.2 ⟨by simp [IsNumeric], ?_⟩
    exact isNumeric_of_dropWhile (isNumeric_of_isExponent tail.2)
  · exact isNumeric_of_isExponent tail

theorem isNumeric_of_number? {n : Number} (read : number? cs = some n) :
    ∀ c ∈ cs, IsNumeric c := by
  unfold number? at read
  split at read
  next negative magnitude sign =>
  dsimp only at read
  split at read
  case isFalse => cases read
  next spelled =>
  have body : ∀ c ∈ magnitude, IsNumeric c := isNumeric_of_dropWhile (isNumeric_of_isTail spelled.2)
  split at sign <;> cases sign
  · exact List.forall_mem_cons.2 ⟨by simp [IsNumeric], body⟩
  · exact body

/-! ### Size -/

namespace Scaled

theorem takeDigits_lt {significand : Nat} (small : significand < 2 ^ 64) (cs : List Char) :
    (takeDigits significand cs).1 < 2 ^ 64 := by
  induction cs generalizing significand with
  | nil => exact small
  | cons c rest ih =>
    unfold takeDigits
    dsimp only
    split
    · next fits => exact ih fits
    · exact small

theorem takeDigits_le_length (significand : Nat) (cs : List Char) :
    (takeDigits significand cs).2 ≤ cs.length := by
  induction cs generalizing significand with
  | nil => simp [takeDigits]
  | cons c rest ih =>
    unfold takeDigits
    dsimp only
    split
    · exact Nat.le_succ_of_le (ih _)
    · simp

/-- Rounding does not as much as double a number. -/
theorem roundSignificant_le (n : Nat) : roundSignificant n ≤ 2 * n := by
  unfold roundSignificant
  have split := Nat.div_add_mod n (Nat.pow 2 (n.log2 - 52))
  rcases Nat.eq_zero_or_pos n with rfl | positive
  · decide
  · have unit : Nat.pow 2 (n.log2 - 52) ≤ n :=
      Nat.le_trans (Nat.pow_le_pow_right (by decide) (Nat.sub_le _ _))
        (Nat.log2_self_le (Nat.ne_of_gt positive))
    dsimp only
    split
    · rw [Nat.mul_add]
      omega
    · omega

theorem not_isTooLarge {x : Scaled} {zeros : Nat} (exponent : x.exponent = zeros)
    (small : x.significand < 2 ^ 64) (few : zeros ≤ 39) : x.isTooLarge = false := by
  unfold isTooLarge
  rw [exponent]
  have power : 10 ^ zeros ≤ 10 ^ 39 := Nat.pow_le_pow_right (by decide) few
  -- The factors are rounded before they are multiplied, which at most doubles each of them.
  have product : roundSignificant x.significand * roundSignificant (Nat.pow 10 zeros)
      ≤ (2 * 2 ^ 64) * (2 * 10 ^ 39) :=
    Nat.mul_le_mul
      (Nat.le_trans (roundSignificant_le _) (by omega))
      (Nat.le_trans (roundSignificant_le _) (Nat.mul_le_mul_left 2 power))
  have below : (2 * 2 ^ 64) * (2 * 10 ^ 39) < bound := by decide +kernel
  split
  · rfl
  · split
    · rfl
    · next e same _ =>
      cases same
      split
      · next large => exact absurd large (by unfold maxExponent; omega)
      · simpa using Nat.lt_of_le_of_lt product below

end Scaled

/-- Amounts of 128 bits have at most 39 digits. -/
theorem length_digits_le {n : Nat} (fits : n < 2 ^ 128) : (digits n).length ≤ 39 :=
  (Nat.length_toDigits_le_iff (by decide) (by decide)).2
    (Nat.lt_of_lt_of_le fits (by decide +kernel))

/-- An integer is its leading digits times a power of ten. -/
theorem ofNumeral_integer (value : Int) :
    Scaled.ofNumeral (Number.integer value).toChars =
      ⟨(Scaled.takeDigits 0 (digits value.natAbs)).1,
        Int.ofNat (Scaled.takeDigits 0 (digits value.natAbs)).2 + 0⟩ := by
  simp only [Number.toChars]
  split
  · simp only [Scaled.ofNumeral, takeWhile_digits, dropWhile_digits, Scaled.exponentOf]
  · unfold Scaled.ofNumeral
    split
    · next rest same => exact absurd same (digits_ne_sign _ rest)
    · simp only [takeWhile_digits, dropWhile_digits, Scaled.exponentOf]

theorem isTooLarge_integer {value : Int} (fits : value.natAbs < 2 ^ 128) :
    (Number.integer value).isTooLarge = false := by
  simp only [Number.isTooLarge]
  split
  · rfl
  · rw [ofNumeral_integer]
    exact Scaled.not_isTooLarge (Int.add_zero _) (Scaled.takeDigits_lt (by decide) _)
      (Nat.le_trans (Scaled.takeDigits_le_length _ _) (length_digits_le fits))

end CaseRegistry.Json
