/-! The Gregorian calendar in UTC. Years are counted from 1 March here, so that a leap day is the
last of its year, and a moment is a number of seconds since 1970. -/
namespace ThemeBuilder

structure Date where
  year : Int
  month : Nat
  day : Nat
  deriving DecidableEq

structure Moment extends Date where
  hour : Nat
  minute : Nat
  second : Nat
  deriving DecidableEq

namespace Calendar

/-- Days from 1 March of year 0 to 1 January 1970. -/
def epochShift : Int := 719468

/-- Days in the `m` months from the beginning of March on. -/
def daysBeforeMonth (m : Nat) : Nat := (153 * m + 2) / 5

/-- Days in the `y` years that begin with a year divisible by 400, for `y` below 400. -/
def daysBeforeYear (y : Nat) : Nat := 365 * y + y / 4 - y / 100

/-- The number of days from 1 January 1970 to a date. -/
def toDays (d : Date) : Int :=
  let shift := if d.month ≤ 2 then 1 else 0
  let year := d.year - shift
  let month := if d.month ≤ 2 then d.month + 9 else d.month - 3
  year / 400 * 146097 + daysBeforeYear (year % 400).toNat + daysBeforeMonth month
    + ((d.day : Int) - 1) - epochShift

/-- The year, from 0 to 399, of a day in a span of 400 years. A century has 36524 days and a
fourth one more, four years have 1461. -/
def yearOfDay (day : Nat) : Nat :=
  let century := min 3 (day / 36524)
  let inCentury := day - 36524 * century
  let inFour := inCentury % 1461
  100 * century + 4 * (inCentury / 1461) + min 3 (inFour / 365)

def ofDays (days : Int) : Date :=
  let shifted := days + epochShift
  let day := (shifted % 146097).toNat
  let year := yearOfDay day
  let inYear := day - daysBeforeYear year
  let month := (5 * inYear + 2) / 153
  { year := shifted / 146097 * 400 + year + (if month < 10 then 0 else 1)
    month := if month < 10 then month + 3 else month - 9
    day := inYear - daysBeforeMonth month + 1 }

def ofSeconds (seconds : Int) : Moment :=
  let inDay := (seconds % 86400).toNat
  { toDate := ofDays (seconds / 86400)
    hour := inDay / 3600
    minute := inDay / 60 % 60
    second := inDay % 60 }

end Calendar
end ThemeBuilder
