/-!
# The calendar

Dates of the proleptic Gregorian calendar and the number of days between them. Years are
counted from March, so that the leap day is the last day of a year, and are grouped into
400-year cycles of 146097 days.
-/

namespace LeaseEscrow

/-- A day of the calendar; the month counts from 1 and so does the day. -/
structure Date where
  year : Int
  month : Nat
  day : Nat
deriving DecidableEq

namespace Date

def isLeapYear (year : Int) : Bool := year % 4 == 0 && (year % 100 != 0 || year % 400 == 0)

def daysInMonth (year : Int) (month : Nat) : Nat :=
  if month = 2 then if isLeapYear year then 29 else 28
  else if month = 4 ∨ month = 6 ∨ month = 9 ∨ month = 11 then 30
  else 31

/-- The date exists. -/
def isValid (d : Date) : Bool :=
  1 ≤ d.month && d.month ≤ 12 && 1 ≤ d.day && d.day ≤ daysInMonth d.year d.month

/-- Days from the first of March of year 0 to the first of January 1970. -/
def epochOffset : Int := 719468

/-- Days since the first of January 1970. -/
def dayNumber (d : Date) : Int :=
  let year := if d.month ≤ 2 then d.year - 1 else d.year
  let month : Int := (d.month + 9) % 12
  365 * year + year / 4 - year / 100 + year / 400 + (153 * month + 2) / 5 + d.day - 1 - epochOffset

/-- The date so many days after the first of January 1970. -/
def ofDayNumber (n : Int) : Date :=
  let n := n + epochOffset
  let cycle := n / 146097
  let inCycle := n % 146097
  let century := min (inCycle / 36524) 3
  let inCentury := inCycle - 36524 * century
  let group := inCentury / 1461
  let inGroup := inCentury - 1461 * group
  let single := min (inGroup / 365) 3
  let inYear := inGroup - 365 * single
  let year := 400 * cycle + 100 * century + 4 * group + single
  let month := (5 * inYear + 2) / 153
  { year := if month < 10 then year else year + 1
    month := (if month < 10 then month + 3 else month - 9).toNat
    day := (inYear - (153 * month + 2) / 5 + 1).toNat }

end Date

end LeaseEscrow
