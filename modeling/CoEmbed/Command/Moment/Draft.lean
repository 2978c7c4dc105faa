import CoEmbed.Command.Moment

/-!
# Drafts of a Moment

While a text is read, the numbers of its date are collected in the order in which they stand. Which
of them is the year, the month and the day is settled at the end.

* `Draft` — what has been read so far.
* `Draft.push`, `Draft.pushYear?`, `Draft.pushMonth?` — one more number of the date.
* `Draft.parts?` — year, month and day.
* `fullYear` — a year of two digits in full.
* `Draft.moment` — the moment of a draft.

## Order convention

A month with a name and a year that can be nothing else keep their places, and the third number
is what is left. Among plain numbers the month comes before the day and the year last, unless the
first of them cannot be a month. A number alone is a day, or a year if it is too great for one.

## Century convention

A year below one hundred, unless more digits were written, lies less than fifty years after the
present one, or at most fifty before it.

## Range convention

A number that needs more than 31 bits lies too far away. Any other number that the calendar or the
clock does not have makes the text no date. A day of the week says nothing without a day.
-/

namespace CoEmbed

/-- The months with their lengths in a leap year. -/
def monthLengths : List Nat := [31, 29, 31, 30, 31, 30, 31, 31, 30, 31, 30, 31]

/-- A year of one or two digits **in full**: the one next to the present year. -/
def fullYear (present n : Nat) : Nat :=
  if 100 ≤ n then n
  else
    let year := n + present / 100 * 100
    if present + 50 ≤ year then year - 100
    else if year < present - 50 then year + 100
    else year

/-- A year of two digits is less than fifty years away, or fifty years ago. -/
theorem fullYear_near {present n : Nat} (hpresent : 100 ≤ present) (hn : n < 100) :
    present ≤ fullYear present n + 50 ∧ fullYear present n < present + 50 := by
  have hcentury := Nat.div_add_mod present 100
  have hyears := Nat.mod_lt present (by decide : 100 > 0)
  rw [fullYear, if_neg (by omega)]
  dsimp only
  split
  · omega
  · split <;> omega

/-- **What has been read**: the numbers of the date, the places of the year and the month among
them if they are known, whether the century was written, the time of day, whether a day of the
week was named, and the zone of the clock with its name. A sign in front of the zone may count the
other way round. -/
structure Draft where
  numbers : List Nat
  yearAt : Option Nat
  monthAt : Option Nat
  withCentury : Bool
  hour : Option Nat
  minute : Option Nat
  second : Option Nat
  micro : Option Nat
  weekday : Bool
  zoneName : Option String
  zone : Option Int
  turned : Bool

namespace Draft

/-- Nothing has been read. -/
def start : Draft :=
  ⟨[], none, none, false, none, none, none, none, false, none, none, false⟩

/-- One more number of the date. -/
def push (d : Draft) (n : Nat) : Draft := { d with numbers := d.numbers ++ [n] }

/-- The **year**, its century included, unless there is one already. -/
def pushYear? (d : Draft) (n : Nat) : Option Draft :=
  if d.yearAt.isSome then none
  else some { d.push n with yearAt := some d.numbers.length, withCentury := true }

/-- The **month**, unless there is one already. -/
def pushMonth? (d : Draft) (n : Nat) : Option Draft :=
  if d.monthAt.isSome then none else some { d.push n with monthAt := some d.numbers.length }

/-- Figures; with more than two of them they are the year. -/
def pushFigures? (d : Draft) (ds : List Char) : Option Draft :=
  let n := Decimal.valueAfter 0 ds
  if 2 < ds.length then d.pushYear? n else some (d.push n)

/-- A number with or without a fraction; one above a hundred is the year. -/
def pushValue? (d : Draft) (n : Nat) (hasFraction : Bool) : Option Draft :=
  if 100 < n ∨ (n = 100 ∧ hasFraction) then d.pushYear? n else some (d.push n)

/-- The number at a place. -/
def at? (d : Draft) (place : Option Nat) : Option Nat := place.bind fun i => d.numbers[i]?

/-- A number that may be the **day** of the month and the year, as far as they are known. -/
def mayBeDay (d : Draft) (n : Nat) (hasFraction : Bool) : Bool :=
  let year : Int := (d.at? d.yearAt).getD 2000
  let most := match d.at? d.monthAt with
    | none => 31
    | some 2 => if Date.isValid ⟨year, 2, 29⟩ then 29 else 28
    | some m => (monthLengths[m - 1]?).getD 0
  decide (1 ≤ n) && decide (n + hasFraction.toNat ≤ most)

/-- The place that is left beside two others among three. -/
def placeLeft (i j : Nat) : Nat := 3 - i - j

/-- **Year, month and day**, as far as they were given. -/
def parts? (d : Draft) : Option (Option Nat × Option Nat × Option Nat) :=
  match d.numbers, d.yearAt, d.monthAt with
  | [_], some _, none | [_], none, some _ | [_, _], some _, some _ =>
    some (d.at? d.yearAt, d.at? d.monthAt, none)
  | [_, _, _], some i, some j =>
    some (d.at? (some i), d.at? (some j), d.at? (some (placeLeft i j)))
  | [], _, _ => some (none, none, none)
  | [a], _, _ => if 31 < a then some (a, none, none) else some (none, none, a)
  | [a, b], _, some j =>
    let (month, other) := if j = 0 then (a, b) else (b, a)
    if 31 < other then some (other, month, none) else some (none, month, other)
  | [a, b], _, none =>
    if 31 < a then some (a, b, none)
    else if 31 < b then some (b, a, none)
    else some (none, a, b)
  | [a, b, c], _, some j =>
    if j = 0 then (if 31 < b then some (b, a, c) else some (c, a, b))
    else if j = 1 then (if 31 < a then some (a, b, c) else some (c, b, a))
    else if 31 < b then some (b, c, a)
    else some (a, c, b)
  | [a, b, c], i, none =>
    if 31 < a ∨ i = some 0 then some (a, b, c)
    else if 12 < a then some (c, b, a)
    else some (c, a, b)
  | _, _, _ => none

/-- The names of the common clock. -/
def commonNames : List String := ["utc", "gmt", "z"]

/-- A name of the common clock. -/
def isCommon (name : String) : Bool := commonNames.contains (Text.lowerAscii name)

/-- The **zone**, if it is known: the seconds that the clock is ahead. Only the common clock is
known by its name, and no clock is a whole day ahead or behind. -/
def ahead (d : Draft) : Except Fault Int :=
  match d.zoneName, d.zone with
  | none, none => .ok 0
  | some name, none => if isCommon name then .ok 0 else .error .badValue
  | name, some seconds =>
    if name.any isCommon then .ok 0
    else if seconds.natAbs < secondsPerDay.natAbs then .ok seconds
    else .error .badValue

/-- The numbers of a draft that were given. -/
def given (d : Draft) (year month day : Option Nat) : List Nat :=
  [year, month, day, d.hour, d.minute, d.second, d.micro].filterMap id

/-- The least number that does not fit into 31 bits. -/
def tooFar : Nat := twoTo 31

/-- The digits of the parts of a second: the first ones behind a clock with seconds. -/
def secondDigits (cs : List Char) : List Char :=
  let digits (cs : List Char) := (cs.takeWhile Char.isDigit, cs.dropWhile Char.isDigit)
  match digits cs with
  | (_ :: _, ':' :: minutes) => match digits minutes with
    | (_ :: _, ':' :: seconds) => match digits seconds with
      | (_ :: _, '.' :: rest) => rest.takeWhile Char.isDigit
      | _ => []
    | _ => []
  | _ => []

/-- The digits of the parts of a second, wherever the clock stands in a text. -/
def findSecondDigits : List Char → List Char
  | [] => []
  | c :: cs => match secondDigits (c :: cs) with
    | [] => findSecondDigits cs
    | ds => ds

/-- The moment with the millionth parts of a second that were read, as finely as the text says. -/
def refine (m : Moment) (micro : Nat) (digits : List Char) : Moment :=
  let finer := m.withDigits digits
  if digits.isEmpty then m
  else if finer.parts = Moment.finestParts then
    { finer with fraction := 1000 * micro + finer.fraction % 1000 }
  else { finer with fraction := micro * finer.parts / tenTo 6 }

/-- The **moment of a draft** in the present year, where the text gives the parts of the second.
What was not given counts as its least value, but something has to be. -/
def moment (present : Nat) (d : Draft) (text : List Char) : Except Fault Moment := do
  let some (year, month, day) := d.parts? | throw .badDate
  let year := if d.withCentury then year else year.map (fullYear present)
  let numbers := d.given year month day
  if numbers.isEmpty then throw .badDate
  if numbers.any fun n => tooFar ≤ n then throw .farDate
  let date : Date := ⟨(year.getD 1 : Nat), month.getD 1, day.getD 1⟩
  let (hour, minute, second) := (d.hour.getD 0, d.minute.getD 0, d.second.getD 0)
  if !(date.isValid && decide (1 ≤ date.year ∧ date.year ≤ 9999)) then throw .badDate
  if 24 ≤ hour ∨ 60 ≤ minute ∨ 60 ≤ second then throw .badDate
  if d.weekday && day.isNone then throw .badValue
  let m : Moment := ⟨date, Moment.clockOf hour minute second, 0, 1, ← d.ahead⟩
  return match d.micro with
    | some micro => refine m micro (findSecondDigits text)
    | none => m

end Draft

end CoEmbed
