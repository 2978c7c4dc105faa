import CoEmbed.Command.Calendar
import CoEmbed.Numeral

/-!
# Moments

A moment is a day, a time of that day, and the distance of its clock from the common one.

* `Moment` — a moment, with its second taken apart as finely as it was given.
* `Moment.count` — the parts of a second between the beginning of 1970 and a moment.
* `Moment.fits` — a moment that can be counted.
* `Moment.seconds` — the whole seconds of a moment.

## Precision convention

A second has one part, or a thousand, a million or a thousand million of them. The finest parts
are counted in a word of 64 bits with a sign, the least of which is not a moment; no other
count is limited.

## Rounding convention

The seconds of a moment are rounded to six places, and then cut down to a whole number.
-/

namespace CoEmbed

/-- A **moment**: a day, the seconds that have passed on it, the parts of the next second, how
many parts a second has, and the seconds that the clock is ahead of the common one. -/
structure Moment where
  date : Date
  clock : Nat
  fraction : Nat
  parts : Nat
  ahead : Int
  deriving DecidableEq, Repr

namespace Moment

/-- The beginning of a day. -/
def ofDate (d : Date) : Moment := ⟨d, 0, 0, 1, 0⟩

/-- The seconds of an hour, a minute and a second of a day. -/
def clockOf (hour minute second : Nat) : Nat := 3600 * hour + 60 * minute + second

/-- The parts of a second since the beginning of 1970, as the clock of the moment shows them. -/
def shownCount (m : Moment) : Int :=
  (m.date.days * secondsPerDay + (m.clock : Int)) * (m.parts : Int) + (m.fraction : Int)

/-- The **parts of a second** since the beginning of 1970, on the common clock. -/
def count (m : Moment) : Int := m.shownCount - m.ahead * (m.parts : Int)

/-- The beginning of a day is a whole number of days away from that of 1970. -/
theorem count_ofDate (d : Date) : (ofDate d).count = d.days * secondsPerDay := by
  simp [count, shownCount, ofDate]

/-- The number of the finest parts that a second has. -/
def finestParts : Nat := tenTo 9

/-- A count of the finest parts that a word has room for. -/
def isRoomy (n : Int) : Bool :=
  decide (-(twoTo 63 : Int) < n) && decide (n < (twoTo 63 : Int))

/-- A moment that **can be counted**, on its own clock and on the common one. -/
def fits (m : Moment) : Bool :=
  decide (m.parts < finestParts) || (isRoomy m.shownCount && isRoomy m.count)

/-- A second with the parts that a number of **digits** asks for, and as many of its parts as the
digits say. -/
def withDigits (m : Moment) (ds : List Char) : Moment :=
  let places := if ds.length ≤ 3 then 3 else if ds.length ≤ 6 then 6 else 9
  let padded := (ds ++ List.replicate (places - ds.length) '0').take places
  { m with fraction := Decimal.valueAfter 0 padded, parts := tenTo places }

/-- The **whole seconds** of a moment. -/
def seconds (m : Moment) : Int :=
  if m.parts = 1 then m.count
  else
    let x : Float := Scalar.ofInt m.count / Scalar.ofNat m.parts
    let rounded := ((Decimal.readLiteral? ((Binary.ofFloat x).fixed 6)).map
      Decimal.Literal.toFloat).getD x
    Numeral.truncate rounded

end Moment

end CoEmbed
