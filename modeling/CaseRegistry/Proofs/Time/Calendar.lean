import CaseRegistry.Time.Calendar

/-! Every day has a date of the calendar (`isValid_ofDay`). -/
namespace CaseRegistry.Date

/-- The months of a year take it up. -/
theorem totalDays_monthLengths (year : Int) :
    (totalDays (monthLengths year) : Int) = daysBeforeYear (year + 1) - daysBeforeYear year := by
  unfold monthLengths
  split
  · next leap =>
    unfold IsLeapYear at leap
    simp only [totalDays, daysBeforeYear]
    omega
  · next common =>
    unfold IsLeapYear at common
    simp only [totalDays, daysBeforeYear]
    omega

/-- Days that do not take up all months end within one of them. -/
theorem splitMonths_lt (lengths : List Nat) (days : Nat) (inside : days < totalDays lengths) :
    ∃ length ∈ lengths[(splitMonths lengths days).1]?, (splitMonths lengths days).2 < length := by
  induction lengths generalizing days with
  | nil => simp [totalDays] at inside
  | cons length rest ih =>
    unfold splitMonths
    split
    · next first => exact ⟨length, rfl, first⟩
    · next later =>
      simp only [totalDays] at inside
      simpa using ih (days - length) (by omega)

theorem isValid_ofDay (day : Int) : (ofDay day).IsValid := by
  have le := daysBeforeYear_yearOfDay_le day
  have lt := lt_daysBeforeYear_yearOfDay_succ day
  have total := totalDays_monthLengths (yearOfDay day)
  obtain ⟨length, found, inside⟩ := splitMonths_lt (monthLengths (yearOfDay day))
    (day - daysBeforeYear (yearOfDay day)).toNat (by omega)
  refine ⟨by simp [ofDay], by simp [ofDay], length, ?_, ?_⟩
  · simpa [ofDay] using found
  · simpa [ofDay, Nat.succ_le_iff] using inside

/-- No part of a date takes more than two digits, the year apart. -/
theorem IsValid.lt {date : Date} (valid : date.IsValid) : date.month < 100 ∧ date.day < 100 := by
  obtain ⟨-, -, length, found, inside⟩ := valid
  have index : date.month - 1 < (monthLengths date.year).length :=
    (List.getElem?_eq_some_iff.1 found).1
  have bound : ∀ length ∈ monthLengths date.year, length ≤ 31 := by
    unfold monthLengths
    split <;> decide
  have := bound length (List.mem_of_getElem? found)
  have : (monthLengths date.year).length = 12 := rfl
  omega

end CaseRegistry.Date
