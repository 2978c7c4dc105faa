import CoEmbed.Command.Moment.Free
import CoEmbed.Command.Moment.Ordered
import CoEmbed.Command.Moment.Short
import CoEmbed.Decimal.Plain

/-!
# Reading Times

A text that names a time is tried in one form after the other.

* `unknownTimes` — the words for a time that is not known.
* `mayBeMoment` — the texts that are looked at beyond figures in order.
* `Moment.ofText` — the moment of a text.
* `readTime` — the time that a text names, in seconds.

## Form convention

Figures with the largest unit first go before everything else. A text that is nothing but a small
number, or one of a few letters, is no time; any other text is taken for one of the short forms,
and else read freely.
-/

namespace CoEmbed

/-- Words for a time that is **not known**. -/
def unknownTimes : List String := ["NaT", "nat", "NAT", "nan", "NaN", "NAN"]

/-- Letters that are no time by themselves. -/
def loneLetters : List String := ["a", "A", "m", "M", "D", "d", "t", "T"]

/-- The least number that is taken for a time. -/
def leastTime : Float := 1000

/-- The least power of ten of a number that is looked at. -/
def leastPower : Int := -1021

/-- A text that **may name a moment**: anything but a lone letter or a small number. A text that
begins with a zero may always name one. -/
def mayBeMoment (s : String) : Bool :=
  s.startsWith "0" || (!loneLetters.contains s &&
    match Decimal.plainLiteral? s with
    | some (.finite negative n e) =>
      decide (e < leastPower) || decide (leastTime ≤ (Decimal.Literal.finite negative n e).toFloat)
    | _ => true)

/-- The **moment of a text**, read in the present year. -/
def Moment.ofText (present : Nat) (s : String) : Except Fault Moment := do
  let m ← match Moment.ofOrdered? s with
    | some m => pure m
    | none =>
      if !mayBeMoment s then throw .badValue
      match ← Moment.ofShort s with
      | some m => pure m
      | none => Moment.ofFree present s
  if m.fits then return m else throw .farDate

/-- The **time that a text names**, in seconds, where it is read in the present year. -/
def readTime (present : Nat) (s : String) : Except Fault Int :=
  if unknownTimes.contains s then .error .badValue
  else (Moment.ofText present s).map Moment.seconds

end CoEmbed
