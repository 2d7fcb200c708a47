/-
The proleptic Gregorian calendar in UTC: dates from day numbers and day numbers from dates.
A year is taken apart into cycles of 400, 100, 4 and 1 years that start in year 1, so that the
longer year stands last in each cycle.
-/
namespace MetricCascade

/-- A day of the calendar. -/
structure Date where
  year : Int
  month : Int
  day : Int
  deriving DecidableEq

namespace Date

/-- A year has a leap day when four divides it, except in centuries that 400 does not divide. -/
def isLeap (year : Int) : Bool := year % 4 = 0 ∧ (year % 100 ≠ 0 ∨ year % 400 = 0)

/-- The lengths of the twelve months. -/
def monthLengths (leap : Bool) : List Int :=
  [31, if leap then 29 else 28, 31, 30, 31, 30, 31, 31, 30, 31, 30, 31]

/-- Walks through the months: the month that holds the `offset`-th day from the first of month
`month` on, and the day in it. -/
def walkMonths (month : Int) : List Int → Int → Int × Int
  | [], offset => (month, offset + 1)
  | length :: rest, offset =>
    if offset < length then (month, offset + 1) else walkMonths (month + 1) rest (offset - length)

/-- The days before the first of January of a year, from the first day of year 1. -/
def daysBeforeYear (year : Int) : Int :=
  let y := year - 1
  365 * y + y / 4 - y / 100 + y / 400

/-- The year that holds a day, counted from the first day of year 1. -/
def yearOfDay (n : Int) : Int :=
  let inCycle := n % 146097
  let century := min (inCycle / 36524) 3
  let inCentury := inCycle - 36524 * century
  let single := min (inCentury % 1461 / 365) 3
  1 + 400 * (n / 146097) + 100 * century + 4 * (inCentury / 1461) + single

/-- The days from the first day of year 1 to the first of January 1970. -/
def epochDay : Int := 719162

/-- The date of a day, counted from the first of January 1970. -/
def ofEpochDay (n : Int) : Date :=
  let n := n + epochDay
  let year := yearOfDay n
  let (month, day) := walkMonths 1 (monthLengths (isLeap year)) (n - daysBeforeYear year)
  ⟨year, month, day⟩

end Date

/-- A minute of the calendar. -/
structure Minute where
  date : Date
  hour : Int
  minute : Int
  deriving DecidableEq

/-- The number of milliseconds in a day. -/
def millisPerDay : Int := 86400000

/-- The minute that holds an instant, given in milliseconds since the first of January 1970;
instants before that are rounded down. -/
def Minute.ofMillis (ms : Int) : Minute :=
  let ofDay := ms % millisPerDay / 60000
  ⟨Date.ofEpochDay (ms / millisPerDay), ofDay / 60, ofDay % 60⟩

end MetricCascade
