/-!
# Calendar dates

Dates of the Gregorian calendar, extended to all years. Days are counted from 1970-01-01. The
count is taken in years that start on the first of March, so that a leap day ends its year;
four hundred years always have the same number of days.

* `Date.toDays`, `Date.ofDays`: the date of a day.
* `Date.isValid`: whether there is such a date.
-/

namespace BoardFarm

/-- A year, a month from 1 to 12, and a day from 1 to 31. -/
structure Date where
  year : Int
  month : Nat
  day : Nat
  deriving DecidableEq, Repr

namespace Date

/-- Whether a year has a leap day. -/
def isLeap (year : Int) : Bool := year % 4 = 0 && (year % 100 ≠ 0 || year % 400 = 0)

/-- The number of days of a month. -/
def monthLength (year : Int) (month : Nat) : Nat :=
  if month = 2 then (if isLeap year then 29 else 28)
  else if month = 4 || month = 6 || month = 9 || month = 11 then 30
  else 31

/-- Whether there is such a date. -/
def isValid (d : Date) : Bool :=
  1 ≤ d.month && d.month ≤ 12 && 1 ≤ d.day && d.day ≤ monthLength d.year d.month

/-- The days of four hundred years. -/
def cycleDays : Int := 146097

/-- The days from the first of March of the year zero to the start of the count. -/
def offset : Int := 719468

/-- The number of days before a month, where months are counted from March. -/
def daysBefore (month : Nat) : Nat := (153 * month + 2) / 5

/-- The number of days before a year of a cycle. -/
def daysBeforeYear (year : Nat) : Nat := 365 * year + year / 4 - year / 100

def toDays (d : Date) : Int :=
  let year := if d.month ≤ 2 then d.year - 1 else d.year
  let month := if d.month ≤ 2 then d.month + 9 else d.month - 3
  let inCycle := daysBeforeYear (year % 400).toNat + daysBefore month + d.day
  year / 400 * cycleDays + inCycle - 1 - offset

/-- The year of a cycle in which a day lies. -/
def yearOf (day : Nat) : Nat := (day - day / 1460 + day / 36524 - day / 146096) / 365

def ofDays (n : Int) : Date :=
  let shifted := n + offset
  let inCycle := (shifted % cycleDays).toNat
  let year := yearOf inCycle
  let inYear := inCycle - daysBeforeYear year
  let month := (5 * inYear + 2) / 153
  let isNext := 10 ≤ month
  { year := shifted / cycleDays * 400 + year + (if isNext then 1 else 0)
    month := if isNext then month - 9 else month + 3
    day := inYear - daysBefore month + 1 }

end Date

end BoardFarm
