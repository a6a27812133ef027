/-!
Decimal numerals: a numeral is a non-empty run of the digits `0` to `9`. A number is written in
the fewest digits, and every numeral is read, leading zeros included; `ofDigits?_digits` says that
what is written reads back.
-/
namespace CaseRegistry.Decimal

/-- The digits of a number, most significant first, without leading zeros. -/
def digits (n : Nat) : List Char := Nat.toDigits 10 n

/-- The number a numeral stands for. -/
def ofDigits? (cs : List Char) : Option Nat :=
  if cs ≠ [] ∧ cs.all Char.isDigit then some (Nat.ofDigitChars 10 cs 0) else none

/-- Reads a number that fits in the given number of bits and may carry a plus sign. -/
def ofUnsigned? (bits : Nat) (cs : List Char) : Option Nat :=
  let magnitude := match cs with
    | '+' :: rest => rest
    | _ => cs
  (ofDigits? magnitude).filter (· < Nat.pow 2 bits)

/-- The digits of a number, filled up with zeros on the left to the given width. -/
def padded (width n : Nat) : List Char :=
  List.replicate (width - (digits n).length) '0' ++ digits n

/-- A run of exactly `width` digits at the start of a text, and what follows it. -/
def takeFixed? (width : Nat) (cs : List Char) : Option (Nat × List Char) :=
  if (cs.take width).length = width then
    (ofDigits? (cs.take width)).map fun n => (n, cs.drop width)
  else none

/-- A run of digits at the start of a text, of which there are at most `width`, and what follows it. -/
def takeUpTo? (width : Nat) (cs : List Char) : Option (Nat × List Char) :=
  let run := (cs.take width).takeWhile Char.isDigit
  (ofDigits? run).map fun n => (n, cs.drop run.length)

theorem digits_ne_nil (n : Nat) : digits n ≠ [] := Nat.toDigits_ne_nil

theorem ofDigits?_digits (n : Nat) : ofDigits? (digits n) = some n := by
  have all : (digits n).all Char.isDigit = true := by
    rw [List.all_eq_true]
    exact fun c hc => Nat.isDigit_of_mem_toDigits (by decide) (by decide) hc
  have value : Nat.ofDigitChars 10 (digits n) 0 = n :=
    Nat.ofDigitChars_toDigits (by decide) (by decide)
  simp [ofDigits?, digits_ne_nil, all, value]

end CaseRegistry.Decimal
