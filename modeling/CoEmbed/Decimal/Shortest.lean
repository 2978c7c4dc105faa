import CoEmbed.Decimal.Binary

/-!
# The Shortest Decimal of a Floating Point Number

A floating point number stands for every real number that rounds to it. Its shortest
decimal is one with the fewest significant digits in that interval, and of those the one
nearest to the number itself.

* `Binary.Reach` — the interval, with its two ends in units of a power of two.
* `Binary.shortest` — the digits, and the power of ten that they count.
* `Layout` — where a decimal is written with a point alone and where with an exponent.

## Interval convention

Half the distance to each neighbour belongs to a number; the ends belong to it exactly when
its significand is even. Below a power of two the neighbours are twice as dense, so the
lower half there is half as long.
-/

namespace CoEmbed

namespace Binary

/-- The **interval of the reals** that round to a number, its ends counted in units of
`2 ^ unit`. -/
structure Reach where
  lower : Nat
  upper : Nat
  unit : Int
  closed : Bool

/-- The interval of a number that is not zero. -/
def reach (b : Binary) : Reach where
  lower := if b.significand = twoTo 52 ∧ -1074 < b.exponent then 4 * b.significand - 1
    else 4 * b.significand - 2
  upper := 4 * b.significand + 2
  unit := b.exponent - 2
  closed := b.significand % 2 = 0

/-- `c · 10 ^ k` lies in the interval. -/
def Reach.holds (r : Reach) (c : Nat) (k : Int) : Bool :=
  let left := c * tenTo k.toNat * twoTo (-r.unit).toNat
  let scale := twoTo r.unit.toNat * tenTo (-k).toNat
  if r.closed then decide (r.lower * scale ≤ left ∧ left ≤ r.upper * scale)
  else decide (r.lower * scale < left ∧ left < r.upper * scale)

/-- The decimal with `count` digits that lies in the interval and is nearest to the number,
if there is one: of the two neighbours of the number on that decimal grid, those that lie in
the interval are the candidates. -/
def nearest? (b : Binary) (count : Nat) : Option (Nat × Int) :=
  let (num, den) := b.quotient
  let unit := Decimal.exponent num den - (count - 1 : Nat)
  let (p, q) := Decimal.scaled num den (-unit)
  let below := p / q
  let near := roundDiv p q
  let far := if near = below then below + 1 else below
  if b.reach.holds near unit then some (near, unit)
  else if b.reach.holds far unit then some (far, unit)
  else none

/-- The **shortest decimal** of a number that is not zero: digits and the power of ten they
count. Seventeen digits always suffice. -/
def shortest (b : Binary) : Nat × Int :=
  match (List.range 17).findSome? fun d => b.nearest? (d + 1) with
  | some r => r
  | none => Decimal.significant 17 b.quotient.1 b.quotient.2

end Binary

/-- A choice of **decimal layout**: decimals whose exponent lies from `least` to `greatest`
are written with a point alone, all others with an exponent. -/
structure Layout where
  least : Int
  greatest : Int

/-- Digits without their trailing zeros, and the power of ten they count. -/
def stripZeros (ds : List Char) (unit : Int) : List Char × Int :=
  let kept := (ds.reverse.dropWhile (· == '0')).reverse
  (kept, unit + ((ds.length - kept.length : Nat) : Int))

/-- A decimal in the given layout. A whole number keeps a point and one zero. -/
def Layout.decimal (l : Layout) (ds : List Char) (unit : Int) : String :=
  let e : Int := unit + (ds.length : Int) - 1
  if l.least ≤ e ∧ e ≤ l.greatest then
    if e < 0 then "0." ++ String.ofList (List.replicate (-e - 1).toNat '0' ++ ds)
    else if 0 ≤ unit then String.ofList (ds ++ List.replicate unit.toNat '0') ++ ".0"
    else String.ofList (ds.take (e + 1).toNat) ++ "." ++ String.ofList (ds.drop (e + 1).toNat)
  else String.ofList (Decimal.pointed ds) ++ "e" ++ Decimal.exponentText e

/-- A floating point number by its shortest decimal. -/
def Layout.float (l : Layout) : Float → String :=
  writeFloat fun b =>
    if b.significand = 0 then b.sign ++ "0.0"
    else
      let (c, k) := b.shortest
      let (ds, unit) := stripZeros (Decimal.digits c) k
      b.sign ++ l.decimal ds unit

end CoEmbed
