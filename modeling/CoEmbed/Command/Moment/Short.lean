import CoEmbed.Command.Moment

/-!
# Days in Short Forms

A day may be written as month, day and year with a sign between any two of them, and the first
day of a quarter or of a month by the number of the quarter or the name of the month.

* `Short.spaced?` — numbers of a fixed width with signs between them.
* `Short.ofSpaced` — a month, a day and a year.
* `Short.ofQuarter` — a quarter of a year.
* `Short.ofNamedMonth?` — a month with a name.
* `Moment.ofShort` — the moment of a text, if it is in one of these forms.

## Order convention

The month comes before the day, unless it cannot be a month.

## Refusal convention

A text in the form of a day that the calendar does not have is a value out of its range. Numbers
out of the range of all months and days, and quarters that no year has, name no date at all.
-/

namespace CoEmbed

namespace Short

/-- A sign that stands between the numbers of a date. -/
def isSign (c : Char) : Bool := c ∈ [' ', '-', '.', '/', Char.ofNat 0]

/-- The **numbers of so many digits** each, with a sign between any two of them. -/
def spaced? : List Nat → List Char → Option (List Nat)
  | [], _ => none
  | [width], cs =>
    if cs.length = width ∧ cs.all Char.isDigit then some [Decimal.valueAfter 0 cs] else none
  | width :: widths, cs =>
    let ds := cs.take width
    match cs.drop width with
    | c :: cs =>
      if ds.all Char.isDigit ∧ isSign c then
        (spaced? widths cs).map (Decimal.valueAfter 0 ds :: ·)
      else none
    | [] => none

/-- The widths of month, day and year. -/
def dayWidths : List (List Nat) := [[2, 2, 4], [1, 2, 4], [2, 1, 4], [1, 1, 4]]

/-- The widths of month and year. -/
def monthWidths : List Nat := [2, 4]

/-- The least year that is written out in these forms. -/
def leastYear : Nat := 1000

/-- The greatest number of a day. -/
def mostDays : Nat := 31

/-- Month, day and year of a text, and whether month and day may have changed places. -/
def numbers? (cs : List Char) : Option (Nat × Nat × Nat × Bool) :=
  match dayWidths.findSome? fun widths => spaced? widths cs with
  | some [month, day, year] => some (month, day, year, true)
  | _ => match spaced? monthWidths cs with
    | some [month, year] => if cs[2]? = some '.' then none else some (month, 1, year, false)
    | _ => none

/-- A **month, a day and a year**. -/
def ofSpaced (cs : List Char) : Except Fault (Option Moment) :=
  match numbers? cs with
  | none => .ok none
  | some (month, day, year, mayChange) =>
    let inRange (n : Nat) : Bool := decide (1 ≤ n) && decide (n ≤ mostDays)
    if year < leastYear then .ok none
    else if !(inRange month && inRange day && decide (month ≤ 12 ∨ day ≤ 12)) then .error .badDate
    else
      let d : Date := if 12 < month ∧ mayChange then ⟨year, day, month⟩ else ⟨year, month, day⟩
      if d.isValid then .ok (some (.ofDate d)) else .error .badValue

/-- The years that these forms name. -/
def isYear (year : Int) : Bool := decide (1 ≤ year) && decide (year ≤ 9999)

/-- The whole number of some characters. -/
def whole? (cs : List Char) : Option Int := Decimal.readWhole? (String.ofList cs)

/-- The last characters of a list. -/
def lastOf (n : Nat) (cs : List Char) : List Char := cs.drop (cs.length - n)

/-- Quarter and year of a text with the letter of a quarter at an index. A year of two digits
belongs to this millennium. -/
def quarterAt? (cs : List Char) (i : Nat) : Option (Int × Int) :=
  let size := cs.length
  let thousands (y : Int) : Int := 2000 + y
  let dashAt (j : Nat) : Bool := cs[j]? == some '-'
  let short := size == 4 || (size == 5 && dashAt (if i = 1 then 2 else i - 1))
  let long := size == 6 || (size == 7 && dashAt (if i = 1 then 2 else i - 1))
  if i = 1 then
    (whole? (cs.take 1)).bind fun quarter =>
      if short then (whole? (lastOf 2 cs)).map fun y => (quarter, thousands y)
      else if long then (whole? (lastOf 4 cs)).map fun y => (quarter, y)
      else none
  else if i ≤ 3 then
    if short then do return (← whole? (lastOf 1 cs), thousands (← whole? (cs.take 2))) else none
  else
    if long then do return (← whole? (lastOf 1 cs), ← whole? (cs.take 4)) else none

/-- The first day of a **quarter**. -/
def ofQuarter (cs : List Char) : Except Fault (Option Moment) :=
  let found := if cs.length < 4 ∨ 7 < cs.length then none
    else ((((cs.take 6).drop 1).findIdx? fun c => c = 'Q').map (· + 1)).bind (quarterAt? cs)
  match found with
  | none => .ok none
  | some (quarter, year) =>
    if quarter < 1 ∨ 4 < quarter then .error .badDate
    else if isYear year then .ok (some (.ofDate ⟨year, 3 * (quarter.toNat - 1) + 1, 1⟩))
    else .ok none

/-- The first day of a year of four characters. -/
def ofYear? (cs : List Char) : Option Moment :=
  if cs.length = 4 then
    ((whole? cs).filter isYear).map fun year => .ofDate ⟨year, 1, 1⟩
  else none

/-- The capital letters that the names of the months begin with. -/
def monthMarks : List (List Char) :=
  ["JAN".toList, "FEB".toList, "MAR".toList, "APR".toList, "MAY".toList, "JUN".toList,
   "JUL".toList, "AUG".toList, "SEP".toList, "OCT".toList, "NOV".toList, "DEC".toList]

/-- The first day of a **month with a name**. -/
def ofNamedMonth? (cs : List Char) : Option Moment := do
  let month ← monthMarks.findIdx? fun name => name = cs.take 3
  let rest := cs.drop 3
  let ds := if rest.head? = some '-' then rest.drop 1 else rest.dropWhile Text.isBlank
  guard (ds.length = 4 ∧ ds.length < rest.length ∧ ds.all fun d => (Text.digit? d).isSome)
  let year ← whole? ds
  guard (isYear year)
  return .ofDate ⟨year, month + 1, 1⟩

end Short

/-- The **moment of a text** in a short form, if it is in one. -/
def Moment.ofShort (s : String) : Except Fault (Option Moment) := do
  match ← Short.ofSpaced s.toList with
  | some m => return some m
  | none =>
    let cs := (Text.upperAscii s).toList
    match Short.ofYear? cs with
    | some m => return some m
    | none => match ← Short.ofQuarter cs with
      | some m => return some m
      | none => return Short.ofNamedMonth? cs

end CoEmbed
