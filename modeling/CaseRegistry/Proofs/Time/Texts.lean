import CaseRegistry.Proofs.Text.Digits
import CaseRegistry.Proofs.Time.Calendar
import CaseRegistry.Time.Timestamp

/-! Instants in print.

An instant whose date is one of those that are kept is read back from its text
(`ofString?_toString`), whatever year it falls in and however long its fraction of a second; and no
other instant is ever read (`isInRange_of_ofString?`). -/
namespace CaseRegistry.Timestamp

open Decimal (padded StopsDigits stopsDigits_cons)

variable {cs rest : List Char} {c : Char} {n : Nat}

/-! ### Pieces of a text -/

theorem isWhiteSpace_of_isDigit (digit : c.isDigit) : Text.isWhiteSpace c = false := by
  have bounds : 48 ≤ c.toNat ∧ c.toNat ≤ 57 := by
    simp only [Char.isDigit, Bool.and_eq_true, decide_eq_true_eq, ge_iff_le,
      UInt32.le_iff_toNat_le] at digit
    exact digit
  simp only [Text.isWhiteSpace, Bool.or_eq_false_iff, Bool.and_eq_false_iff, decide_eq_false_iff_not,
    beq_eq_false_iff_ne]
  omega

theorem skipBlanks_cons (text : Text.isWhiteSpace c = false) (cs : List Char) :
    skipBlanks (c :: cs) = c :: cs := by
  simp [skipBlanks, text]

theorem exists_padded_cons (width n : Nat) : ∃ c cs, padded width n = c :: cs ∧ c.isDigit := by
  have nonempty : padded width n ≠ [] := Decimal.padded_ne_nil
  obtain ⟨c, cs, chars⟩ := List.exists_cons_of_ne_nil nonempty
  exact ⟨c, cs, chars, Decimal.isDigit_of_mem_padded (chars ▸ List.mem_cons_self)⟩

theorem skipBlanks_padded (width n : Nat) (rest : List Char) :
    skipBlanks (padded width n ++ rest) = padded width n ++ rest := by
  obtain ⟨c, cs, chars, digit⟩ := exists_padded_cons width n
  rw [chars]
  exact skipBlanks_cons (isWhiteSpace_of_isDigit digit) _

theorem readPart?_padded (small : n < 100) (rest : List Char) :
    readPart? (padded 2 n ++ rest) = some (n, rest) := by
  rw [readPart?, skipBlanks_padded, Decimal.takeUpTo?_padded (by decide) small]

theorem readMark?_cons {mark : Char} (text : Text.isWhiteSpace mark = false) (rest : List Char) :
    readMark? mark (mark :: rest) = some rest := by
  simp [readMark?, skipBlanks_cons text, expect?]

/-- Digits stand where a sign might. -/
theorem padded_append_ne {mark : Char} (other : mark.isDigit = false) {width : Nat}
    {more : List Char} : padded width n ++ rest ≠ mark :: more := by
  obtain ⟨c, cs, chars, digit⟩ := exists_padded_cons width n
  rw [chars]
  rintro ⟨⟩
  simp [other] at digit

/-- Behind a sign the year has as many digits as there are. -/
theorem signed_padded (sign : Int) (stop : StopsDigits rest) :
    readYear?.signed sign (padded 4 n ++ rest) = some (sign * n, rest) := by
  have digits : ∀ c ∈ padded 4 n, c.isDigit := fun _ => Decimal.isDigit_of_mem_padded
  simp [readYear?.signed, Decimal.takeWhile_digits digits stop,
    Decimal.dropWhile_digits digits stop, Decimal.ofDigits?_padded]

theorem readYear?_writeYear (year : Int) (stop : StopsDigits rest) :
    readYear? (writeYear year ++ rest) = some (year, rest) := by
  unfold writeYear
  split
  · next before =>
    simp only [readYear?, List.cons_append, skipBlanks_cons (c := '-') rfl, signed_padded _ stop]
    congr 2
    omega
  split
  · next natural short =>
    obtain ⟨n, rfl⟩ := Int.eq_ofNat_of_zero_le (by omega : 0 ≤ year)
    have small : n < 10 ^ 4 := by omega
    rw [readYear?, Int.toNat_natCast, skipBlanks_padded]
    split
    · next same => exact absurd same (padded_append_ne rfl)
    · next same => exact absurd same (padded_append_ne rfl)
    · rw [Decimal.takeUpTo?_padded (by decide) small]
      rfl
  · next after =>
    simp only [readYear?, List.cons_append, skipBlanks_cons (c := '+') rfl, signed_padded _ stop]
    congr 2
    omega

theorem readDate?_write {date : Date} (valid : date.IsValid) (inRange : date.IsInRange)
    (rest : List Char) :
    readDate? (writeYear date.year ++ '-' :: (padded 2 date.month ++ '-' ::
      (padded 2 date.day ++ rest))) = some (date, rest) := by
  obtain ⟨month, day⟩ := valid.lt
  have year (rest : List Char) :
      readYear? (writeYear date.year ++ '-' :: rest) = some (date.year, '-' :: rest) :=
    readYear?_writeYear _ (stopsDigits_cons rfl _)
  have mark (rest : List Char) : readMark? '-' ('-' :: rest) = some rest := readMark?_cons rfl rest
  simp [readDate?, year, mark, readPart?_padded month, readPart?_padded day, valid, inRange]

theorem readClock?_write {second : Nat} (inside : second < secondsPerDay) (rest : List Char) :
    readClock? (padded 2 (second / 3600) ++ ':' :: (padded 2 (second / 60 % 60) ++ ':' ::
      (padded 2 (second % 60) ++ rest))) = some (second, rest) := by
  unfold secondsPerDay at inside
  have hour : second / 3600 < 24 := by omega
  have minute : second / 60 % 60 < 60 := by omega
  have last : second % 60 < 60 := by omega
  have sum : 3600 * (second / 3600) + 60 * (second / 60 % 60) + second % 60 = second := by omega
  have mark (rest : List Char) : readMark? ':' (':' :: rest) = some rest := readMark?_cons rfl rest
  simp [readClock?, mark, readPart?_padded (Nat.lt_trans hour (by decide)),
    readPart?_padded (Nat.lt_trans minute (by decide)),
    readPart?_padded (Nat.lt_trans last (by decide)), hour, minute, last, sum]

theorem readFraction?_padded {width : Nat} (positive : 0 < width) (short : width ≤ 9)
    (small : n < 10 ^ width) (stop : StopsDigits rest) :
    readFraction? ('.' :: (padded width n ++ rest)) = some (n * 10 ^ (9 - width), rest) := by
  have digits : ∀ c ∈ padded width n, c.isDigit := fun _ => Decimal.isDigit_of_mem_padded
  have length := Decimal.length_padded positive small
  have run : (padded width n).take 9 = padded width n := List.take_of_length_le (by omega)
  simp [readFraction?, Decimal.takeWhile_digits digits stop, Decimal.dropWhile_digits digits stop,
    run, Decimal.ofDigits?_padded, length]

theorem readFraction?_write (small : n < nanosPerSecond) (stop : StopsDigits rest)
    (noPoint : ∀ c ∈ rest.head?, c ≠ '.') :
    readFraction? (writeFraction n ++ rest) = some (n, rest) := by
  unfold nanosPerSecond at small
  unfold writeFraction
  split
  · next whole =>
    subst whole
    rw [List.nil_append]
    unfold readFraction?
    split
    · next more => exact absurd rfl (noPoint '.' rfl)
    · rfl
  split
  · next millis =>
    rw [List.cons_append, readFraction?_padded (by decide) (by decide) (by omega) stop]
    congr 2
    omega
  split
  · next micros =>
    rw [List.cons_append, readFraction?_padded (by decide) (by decide) (by omega) stop]
    congr 2
    omega
  · rw [List.cons_append, readFraction?_padded (by decide) (by decide) (by omega) stop]
    simp

/-! ### Whole instants -/

/-- An instant is a second of a day and nanoseconds past it. -/
theorem ofDay_toDay (t : Timestamp) :
    ofDay t.date.toDay ((t.seconds % secondsPerDay).toNat - 0 : Int)
      (t.nanos % nanosPerSecond).toNat = t := by
  obtain ⟨nanos⟩ := t
  simp only [ofDay, date, Date.toDay_ofDay, seconds, secondsPerDay, nanosPerSecond, epochDay]
  congr 1
  omega

theorem ofChars?_toChars (t : Timestamp) (inRange : t.date.IsInRange) :
    ofChars? t.toChars = some t := by
  have valid : t.date.IsValid := Date.isValid_ofDay _
  have second : (t.seconds % secondsPerDay).toNat < secondsPerDay := by
    unfold secondsPerDay
    omega
  have nanos : (t.nanos % nanosPerSecond).toNat < nanosPerSecond := by
    unfold nanosPerSecond
    omega
  have fraction : readFraction? (writeFraction (t.nanos % nanosPerSecond).toNat ++ ['Z'])
      = some ((t.nanos % nanosPerSecond).toNat, ['Z']) :=
    readFraction?_write nanos (stopsDigits_cons rfl []) (by simp)
  have zone : readOffset? (skipBlanks ['Z']) = some (0, []) := by decide
  have ends : skipBlanks [] = [] := rfl
  simp only [toChars, List.append_assoc, List.cons_append, ofChars?,
    readDate?_write valid inRange, Option.bind_eq_bind, Option.bind_some, expect?,
    List.mem_cons, true_or, if_true, readClock?_write second, fraction, zone, ofDay_toDay, ends,
    inRange, and_self]

theorem ofString?_toString (t : Timestamp) (inRange : t.date.IsInRange) :
    ofString? t.toString = some t := by
  rw [ofString?, toString, String.toList_ofList, ofChars?_toChars t inRange]

theorem isInRange_of_ofString? {text : String} {t : Timestamp} (read : ofString? text = some t) :
    t.date.IsInRange := by
  simp only [ofString?, ofChars?, Option.bind_eq_bind, Option.bind_eq_some_iff] at read
  obtain ⟨_, -, _, -, _, -, _, -, _, -, read⟩ := read
  split at read
  · next ends =>
    cases read
    exact ends.2
  · cases read

end CaseRegistry.Timestamp
