import CaseRegistry.Text.Decimal
import Mathlib.Algebra.Group.Nat.Defs

/-! Runs of digits inside longer texts.

A run of digits is cut off where it ends, and what is cut off reads back. Numbers are written in
the fewest digits (`digits`) or filled up to a width (`padded`); `ofDigits?_padded` reads the latter
as `ofDigits?_digits` does the former. -/
namespace CaseRegistry.Decimal

variable {cs rest : List Char} {n width : Nat}

theorem isDigit_of_mem_digits {c : Char} (mem : c ∈ digits n) : c.isDigit :=
  Nat.isDigit_of_mem_toDigits (by decide) (by decide) mem

/-- The text does not go on with a digit. -/
def StopsDigits (cs : List Char) : Prop := ∀ c ∈ cs.head?, c.isDigit = false

theorem stopsDigits_nil : StopsDigits [] := by simp [StopsDigits]

theorem stopsDigits_cons {c : Char} (mark : c.isDigit = false) (cs : List Char) :
    StopsDigits (c :: cs) := by
  simp [StopsDigits, mark]

theorem takeWhile_digits (digits : ∀ c ∈ cs, c.isDigit) (stop : StopsDigits rest) :
    (cs ++ rest).takeWhile Char.isDigit = cs := by
  rw [List.takeWhile_append_of_pos digits]
  cases rest with
  | nil => simp
  | cons c rest => simp [stop c rfl]

theorem dropWhile_digits (digits : ∀ c ∈ cs, c.isDigit) (stop : StopsDigits rest) :
    (cs ++ rest).dropWhile Char.isDigit = rest := by
  rw [List.dropWhile_append_of_pos digits]
  cases rest with
  | nil => rfl
  | cons c rest => simp [stop c rfl]

/-- No number but 0 is written with a zero in front. -/
theorem digits_eq_zero_of_head (n : Nat) (zero : (digits n).head? = some '0') : n = 0 := by
  induction n using Nat.strongRecOn with
  | ind n ih =>
    rcases Nat.lt_or_ge n 10 with small | large
    · simpa [digits, Nat.toDigits_of_lt_base small, Nat.digitChar_eq_zero] using zero
    · have split : digits n = digits (n / 10) ++ [(n % 10).digitChar] :=
        Nat.toDigits_of_base_le (by decide) large
      have front : (digits (n / 10)).head? = some '0' := by
        obtain ⟨c, rest, first⟩ := List.exists_cons_of_ne_nil (digits_ne_nil (n / 10))
        simpa [split, first] using zero
      have := ih (n / 10) (by omega) front
      omega

/-! ### Filled up to a width -/

theorem isDigit_of_mem_padded {c : Char} (mem : c ∈ padded width n) : c.isDigit := by
  rcases List.mem_append.1 mem with zero | digit
  · rw [List.eq_of_mem_replicate zero]
    rfl
  · exact isDigit_of_mem_digits digit

theorem padded_ne_nil : padded width n ≠ [] := by
  simp [padded, digits_ne_nil]

theorem length_padded (positive : 0 < width) (small : n < 10 ^ width) :
    (padded width n).length = width := by
  have : (digits n).length ≤ width := (Nat.length_toDigits_le_iff (by decide) positive).2 small
  simp only [padded, List.length_append, List.length_replicate]
  omega

theorem ofDigitChars_zeros (count : Nat) :
    Nat.ofDigitChars 10 (List.replicate count '0') 0 = 0 := by
  induction count with
  | zero => rfl
  | succ count ih => simpa [List.replicate_succ, Nat.ofDigitChars] using ih

theorem ofDigits?_padded : ofDigits? (padded width n) = some n := by
  have all : (padded width n).all Char.isDigit = true :=
    List.all_eq_true.2 fun c mem => isDigit_of_mem_padded mem
  have value : Nat.ofDigitChars 10 (padded width n) 0 = n := by
    rw [padded, Nat.ofDigitChars_append, ofDigitChars_zeros]
    exact Nat.ofDigitChars_toDigits (by decide) (by decide)
  simp [ofDigits?, padded_ne_nil, all, value]

/-- A number filled up to the width of its field is taken off the front of a text. -/
theorem takeUpTo?_padded (positive : 0 < width) (small : n < 10 ^ width) (rest : List Char) :
    takeUpTo? width (padded width n ++ rest) = some (n, rest) := by
  have front : (padded width n ++ rest).take width = padded width n := by
    simp [length_padded positive small]
  have run : (padded width n).takeWhile Char.isDigit = padded width n := by
    have digits : ∀ c ∈ padded width n, c.isDigit := fun _ => isDigit_of_mem_padded
    simpa using takeWhile_digits digits stopsDigits_nil
  simp [takeUpTo?, front, run, ofDigits?_padded, length_padded positive small]

end CaseRegistry.Decimal
