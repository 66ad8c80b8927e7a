/-!
# The calendar

Days are numbered from the first of January 1970, and a day has a date in the proleptic
Gregorian calendar: the rule for leap years is applied to all years, and the year before
the year 1 is the year 0.

`SnapStore.Date.ofDay` finds the date of a day and `SnapStore.Date.toDay` the day of a
date. Both count years from the first of March, so that a leap day ends its year, and
both count in **eras** of 400 years, after which the calendar repeats:
`SnapStore.Date.daysPerEra` days each.
-/

namespace SnapStore

/-- A date of the proleptic Gregorian calendar. -/
structure Date where
  /-- The year; the year 0 precedes the year 1. -/
  year : Int
  /-- The month, from 1. -/
  month : Nat
  /-- The day of the month, from 1. -/
  day : Nat
  deriving DecidableEq

namespace Date

/-- The number of days in 400 years. -/
def daysPerEra : Int := 146097

/-- The number of days from the first of March of the year 0 to day zero. -/
def epoch : Int := 719468

/-- The year of the era in which the given day of the era lies, years starting in March.
The corrections undo the leap days up to that day. -/
def yearOfEra (dayOfEra : Nat) : Nat :=
  (dayOfEra - dayOfEra / 1460 + dayOfEra / 36524 - dayOfEra / 146096) / 365

/-- The number of days of the era before the given year of it. -/
def daysBeforeYear (year : Nat) : Nat := 365 * year + year / 4 - year / 100

/-- The number of days of a year before the given month of it, March being month 0. -/
def daysBeforeMonth (month : Nat) : Nat := (153 * month + 2) / 5

/-- The month in which the given day of the year lies, March being month 0. -/
def monthOfYear (dayOfYear : Nat) : Nat := (5 * dayOfYear + 2) / 153

/-- The date of a day. -/
def ofDay (day : Int) : Date :=
  let shifted := day + epoch
  let era := shifted / daysPerEra
  let dayOfEra := (shifted % daysPerEra).toNat
  let year := yearOfEra dayOfEra
  let dayOfYear := dayOfEra - daysBeforeYear year
  let month := monthOfYear dayOfYear
  { year := era * 400 + year + (if month < 10 then 0 else 1)
    month := if month < 10 then month + 3 else month - 9
    day := dayOfYear - daysBeforeMonth month + 1 }

/-- The day of a date. -/
def toDay (d : Date) : Int :=
  let year := d.year - (if d.month ≤ 2 then 1 else 0)
  let era := year / 400
  let month := if d.month ≤ 2 then d.month + 9 else d.month - 3
  era * daysPerEra + daysBeforeYear (year % 400).toNat + daysBeforeMonth month
    + d.day - 1 - epoch

/-- The leap day of the year 2000. -/
example : ofDay 11016 = ⟨2000, 2, 29⟩ ∧ toDay ⟨2000, 2, 29⟩ = 11016 := by decide

/-- The last day of the year before the year 0. -/
example : ofDay (-719529) = ⟨-1, 12, 31⟩ ∧ toDay ⟨-1, 12, 31⟩ = -719529 := by decide

end Date

end SnapStore
