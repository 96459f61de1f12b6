/-!
# Civil days

Days of the Gregorian calendar, extended over all years, and their numbers counted from 1970-01-01.
The year is taken to begin in March, so that the leap day is its last day and the lengths of the months
before a month are `(153 * m + 2) / 5` for `m` months after March.
-/

namespace Formulary

/-- A year, a month from 1 and a day from 1. -/
structure CivilDay where
  year : Int
  month : Nat
  day : Nat
deriving DecidableEq, Repr

namespace CivilDay

def isLeapYear (year : Int) : Bool := year % 4 == 0 && (year % 100 != 0 || year % 400 == 0)

def daysInMonth (year : Int) (month : Nat) : Nat :=
  if month = 2 then (if isLeapYear year then 29 else 28)
  else if month = 4 ∨ month = 6 ∨ month = 9 ∨ month = 11 then 30
  else 31

/-- Whether the calendar has this day. -/
def Exists (d : CivilDay) : Prop :=
  1 ≤ d.month ∧ d.month ≤ 12 ∧ 1 ≤ d.day ∧ d.day ≤ daysInMonth d.year d.month

instance (d : CivilDay) : Decidable d.Exists := by unfold Exists; infer_instance

/-- The number of 1970-01-01 in days counted from the 1st of March of the year 0. -/
def epochOffset : Int := 719468

/-- Days since 1970-01-01. -/
def toDayNumber (d : CivilDay) : Int :=
  let year := if d.month ≤ 2 then d.year - 1 else d.year
  let month := if d.month ≤ 2 then d.month + 9 else d.month - 3
  365 * year + year / 4 - year / 100 + year / 400 + ((153 * month + 2) / 5 : Nat) + d.day - 1
    - epochOffset

/-- The day of a number; a period of 400 years has 146097 days. -/
def ofDayNumber (n : Int) : CivilDay :=
  let shifted := n + epochOffset
  let period := shifted / 146097
  let dayOfPeriod := (shifted % 146097).toNat
  let yearOfPeriod :=
    (dayOfPeriod - dayOfPeriod / 1460 + dayOfPeriod / 36524 - dayOfPeriod / 146096) / 365
  let dayOfYear := dayOfPeriod - (365 * yearOfPeriod + yearOfPeriod / 4 - yearOfPeriod / 100)
  let month := (5 * dayOfYear + 2) / 153
  let year := period * 400 + yearOfPeriod
  { year := if month < 10 then year else year + 1
    month := if month < 10 then month + 3 else month - 9
    day := dayOfYear - (153 * month + 2) / 5 + 1 }

end CivilDay

end Formulary
