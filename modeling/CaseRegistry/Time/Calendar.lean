/-!
The calendar: dates of the proleptic Gregorian calendar and the days they fall on, day 0 being
1 January of the year 0. Main statement: `toDay_ofDay`, every day is the day of the date it is
given.
-/
namespace CaseRegistry

structure Date where
  year : Int
  /-- 1 to 12. -/
  month : Nat
  /-- From 1. -/
  day : Nat
deriving DecidableEq

namespace Date

def IsLeapYear (year : Int) : Prop := year % 4 = 0 ∧ (year % 100 ≠ 0 ∨ year % 400 = 0)

instance (year : Int) : Decidable (IsLeapYear year) := inferInstanceAs (Decidable (_ ∧ _))

def monthLengths (year : Int) : List Nat :=
  [31, if IsLeapYear year then 29 else 28, 31, 30, 31, 30, 31, 31, 30, 31, 30, 31]

/-- Days before the first of January: 365 a year and one for each leap year gone by. -/
def daysBeforeYear (year : Int) : Int :=
  365 * year + (year + 3) / 4 - (year + 99) / 100 + (year + 399) / 400

/-- The year a day falls in. The mean length of a year, 146097 / 400 days, gives it up to one. -/
def yearOfDay (day : Int) : Int :=
  let guess := day * 400 / 146097
  if day < daysBeforeYear guess then guess - 1
  else if daysBeforeYear (guess + 1) ≤ day then guess + 1
  else guess

/-- The days in months of the given lengths. -/
def totalDays : List Nat → Nat
  | [] => 0
  | length :: rest => length + totalDays rest

/-- How many whole months of the given lengths go into a number of days, and the days left. -/
def splitMonths : List Nat → Nat → Nat × Nat
  | [], days => (0, days)
  | length :: rest, days =>
    if days < length then (0, days)
    else
      let (months, left) := splitMonths rest (days - length)
      (months + 1, left)

/-- The first and the last year that dates are kept for. -/
def firstYear : Int := -262143

def lastYear : Int := 262142

def IsInRange (date : Date) : Prop := firstYear ≤ date.year ∧ date.year ≤ lastYear

instance (date : Date) : Decidable date.IsInRange := inferInstanceAs (Decidable (_ ∧ _))

/-- There is such a day in the calendar. -/
def IsValid (date : Date) : Prop :=
  1 ≤ date.month ∧ 1 ≤ date.day ∧
    ∃ length ∈ (monthLengths date.year)[date.month - 1]?, date.day ≤ length

instance (date : Date) : Decidable date.IsValid := inferInstanceAs (Decidable (_ ∧ _ ∧ _))

def toDay (date : Date) : Int :=
  daysBeforeYear date.year + totalDays ((monthLengths date.year).take (date.month - 1))
    + (date.day - 1 : Nat)

def ofDay (day : Int) : Date :=
  let year := yearOfDay day
  let (months, left) := splitMonths (monthLengths year) (day - daysBeforeYear year).toNat
  ⟨year, months + 1, left + 1⟩

theorem daysBeforeYear_yearOfDay_le (day : Int) : daysBeforeYear (yearOfDay day) ≤ day := by
  unfold yearOfDay
  dsimp only
  split
  · unfold daysBeforeYear at *; omega
  · split <;> omega

theorem lt_daysBeforeYear_yearOfDay_succ (day : Int) :
    day < daysBeforeYear (yearOfDay day + 1) := by
  unfold yearOfDay
  dsimp only
  split
  · simpa using ‹day < _›
  · split
    · unfold daysBeforeYear at *; omega
    · omega

theorem totalDays_splitMonths (lengths : List Nat) (days : Nat) :
    totalDays (lengths.take (splitMonths lengths days).1) + (splitMonths lengths days).2 = days := by
  induction lengths generalizing days with
  | nil => simp [splitMonths, totalDays]
  | cons length rest ih =>
    unfold splitMonths
    split
    · simp [totalDays]
    · have := ih (days - length)
      simp only [List.take_succ_cons, totalDays]
      omega

theorem toDay_ofDay (day : Int) : (ofDay day).toDay = day := by
  have le := daysBeforeYear_yearOfDay_le day
  have sum := totalDays_splitMonths (monthLengths (yearOfDay day))
    (day - daysBeforeYear (yearOfDay day)).toNat
  simp only [ofDay, toDay, Nat.add_sub_cancel]
  omega

end Date
end CaseRegistry
