import CoEmbed.Decimal.Reading
import CoEmbed.Fault

/-!
# Dates and Times

Times are counted in seconds from the first of January 1970, all days having the same
number of them.

* `Date` — a day of the calendar.
* `Date.ofDays`, `Date.days` — days counted from the first of January 1970.
* `Date.isValid` — the calendar has the day.
* `timeText` — a time as a date and an hour.
* `timeText?` — the text of a time, if it has one.

## Calendar convention

The rules of leap years hold for all years, also those before they were made. Years are
taken to begin in March, so that the day of a leap year comes last.
-/

namespace CoEmbed

/-- A **day** of the calendar. -/
structure Date where
  year : Int
  month : Nat
  day : Nat
  deriving DecidableEq, Repr

/-- The seconds of a day. -/
def secondsPerDay : Int := 86400

namespace Date

/-- The days from the first of March of the year 0 to the first of January 1970. -/
def epoch : Int := 719468

/-- The days before the month with an index, counted from March. -/
def daysBefore (month : Nat) : Nat := (153 * month + 2) / 5

/-- The leap days before the year with a number. -/
def leapDays (year : Int) : Int := year / 4 - year / 100 + year / 400

/-- The **number of a day**, counted from the first of January 1970. -/
def days (d : Date) : Int :=
  let year := if d.month ≤ 2 then d.year - 1 else d.year
  let month := if d.month ≤ 2 then d.month + 9 else d.month - 3
  365 * year + leapDays year + (daysBefore month + d.day : Nat) - 1 - epoch

/-- The **day with a number**: four hundred years of 146097 days each, a hundred of 36524,
four of 1461. -/
def ofDays (n : Int) : Date :=
  let z := n + epoch
  let cycle := z / 146097
  let inCycle := (z % 146097).toNat
  let year := (inCycle - inCycle / 1460 + inCycle / 36524 - inCycle / 146096) / 365
  let inYear := inCycle - (365 * year + year / 4 - year / 100)
  let month := (5 * inYear + 2) / 153
  let day := inYear - daysBefore month + 1
  let calendarYear : Int := year + cycle * 400
  if month < 10 then ⟨calendarYear, month + 3, day⟩ else ⟨calendarYear + 1, month - 9, day⟩

/-- A day that the calendar has. -/
def isValid (d : Date) : Bool :=
  1 ≤ d.month && d.month ≤ 12 && 1 ≤ d.day && ofDays d.days = d

end Date

/-- A number with zeros in front. -/
def padded (width n : Nat) : String :=
  let ds := Decimal.digits n
  String.ofList (List.replicate (width - ds.length) '0' ++ ds)

/-- A number with blanks in front. -/
def blankPadded (width n : Nat) : String :=
  let ds := Decimal.digits n
  String.ofList (List.replicate (width - ds.length) ' ' ++ ds)

/-- A year with at least four places, the sign of one before the year 0 being one of them. -/
def yearText (year : Int) : String :=
  if year < 0 then "-" ++ padded 3 year.natAbs else padded 4 year.toNat

/-- A **time** as a date and an hour. -/
def timeText (seconds : Int) : String :=
  let d := Date.ofDays (seconds / secondsPerDay)
  let rest := (seconds % secondsPerDay).toNat
  yearText d.year ++ "-" ++ padded 2 d.month ++ "-" ++ padded 2 d.day ++ " "
    ++ padded 2 (rest / 3600) ++ ":" ++ padded 2 (rest / 60 % 60) ++ ":" ++ padded 2 (rest % 60)

/-- The seconds of the last time that is shown: those of its microseconds fill a word of 64
bits. -/
def lastShown : Nat := twoTo 63 / 1000000

/-- The least number of a word of 64 bits, which **stands for no time**. -/
def noTime : Int := -(twoTo 63 : Int)

/-- The text of a time; a time whose **microseconds do not fit** into a word of 64 bits has
none, unless it is the number that stands for no time. -/
def timeText? (seconds : Int) : Option String :=
  if seconds = noTime then some "NaT"
  else if seconds.natAbs ≤ lastShown then some (timeText seconds)
  else none

end CoEmbed
