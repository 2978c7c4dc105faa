/-!
# Scalars

Every computation of this library is written once, over a type of scalars, and read twice:
at `Float` it runs, and over the reals it says what the computation means in exact
arithmetic. This module fixes what a scalar has to offer.

* `Scalar` — arithmetic, an order that may leave two scalars unordered, square root and
  logarithms, and a way to tell the finite scalars apart from the rest.
* `Exceptional` — the three values that are not finite.
* `Scalar.floating` — floating point arithmetic, for any logarithm to base two.
* `Scalar.sum`, `Scalar.total` — sums over an index and over a list, taken from the left.
* `Scalar.square?` — the square of a finite scalar, if it is finite.

## Order convention

`lt` and `eq` are the comparisons of the arithmetic itself: at `Float` a value that is not
a number is neither below, nor equal to, nor above anything. Every other comparison is
defined from the two, so no test of this library decides an unordered pair by accident.
-/

namespace CoEmbed

/-- The values of an arithmetic that are **not finite**. -/
inductive Exceptional where
  | notANumber
  | positiveInfinity
  | negativeInfinity
  deriving DecidableEq, Repr

/-- How an exceptional value is written. -/
def Exceptional.text : Exceptional → String
  | .notANumber => "nan"
  | .positiveInfinity => "inf"
  | .negativeInfinity => "-inf"

/-- A type of **scalars**. An exact arithmetic has no exceptional value and orders every
pair; floating point arithmetic has all three and leaves some pairs unordered. -/
class Scalar (α : Type) extends Zero α, One α, Neg α, Add α, Sub α, Mul α, Div α where
  /-- The scalar that counts `n`. -/
  ofNat : Nat → α
  /-- The scalar nearest to the quotient of two whole numbers. -/
  quotient : Int → Int → α
  /-- Strictly below. -/
  lt : α → α → Bool
  /-- Equal as numbers. -/
  eq : α → α → Bool
  /-- Which exceptional value this is, if it is one. -/
  exceptional? : α → Option Exceptional
  /-- The square root. -/
  sqrt : α → α
  /-- The natural logarithm. -/
  log : α → α
  /-- The logarithm to base two. -/
  log2 : α → α

namespace Scalar

open Float.Model in
/-- A whole number with **all its digits**, as far as they reach. -/
def unrounded (n : Int) : UnpackedFloat :=
  if h : n = 0 then .zero .positive
  else .finite (if n < 0 then .negative else .positive) n.natAbs 0 (Int.natAbs_pos.2 h)

/-- Floating point arithmetic with **some logarithm** to base two. -/
@[reducible] def floating (log2 : Float → Float) : Scalar Float where
  zero := 0.0
  one := 1.0
  ofNat := Float.ofNat
  quotient m n :=
    .ofBits (Float.Model.pack (.div .binary64 (unrounded m) (unrounded n))).toBits
  lt a b := decide (a < b)
  eq a b := a == b
  exceptional? a :=
    if a.isNaN then some .notANumber
    else if a.isInf then some (if a < 0.0 then .negativeInfinity else .positiveInfinity)
    else none
  sqrt := Float.sqrt
  log := Float.log
  log2 := log2

instance : Scalar Float := floating Float.log2

variable {α : Type} [Scalar α]

/-- Below or equal; false on an unordered pair. -/
def le (a b : α) : Bool := lt a b || eq a b

/-- A scalar that is none of the exceptional values. -/
def finite (a : α) : Bool := (exceptional? a).isNone

/-- The first of the two unless the second is strictly above it. -/
def max (a b : α) : α := if lt a b then b else a

/-- The first of the two unless the second is strictly below it. -/
def min (a b : α) : α := if lt b a then b else a

/-- The scalar of an integer. -/
def ofInt : Int → α
  | .ofNat n => ofNat n
  | .negSucc n => -ofNat (n + 1)

/-- The scalar nearest to a quotient of two counts. -/
def ratio (num den : Nat) : α := ofNat num / ofNat den

/-- One half. -/
def half : α := ratio 1 2

/-- The **sum** of a family of `n` scalars, taken from the left. -/
def sum {n : Nat} (f : Fin n → α) : α := Fin.foldl n (fun s i => s + f i) 0

/-- The sum of a list of scalars, taken from the left. -/
def total (xs : List α) : α := xs.foldl (· + ·) 0

/-- The **square** of a scalar, or `none` when a finite scalar has no finite square. -/
def square? (a : α) : Option α :=
  if finite a && !finite (a * a) then none else some (a * a)

/-- `square?` fails exactly at a finite scalar whose product with itself is not finite. -/
theorem square?_eq_none_iff (a : α) :
    square? a = none ↔ finite a = true ∧ finite (a * a) = false := by
  unfold square?
  split <;> simp_all

/-- Where `square?` succeeds its value is the product. -/
theorem square?_eq_some {a b : α} (h : square? a = some b) : b = a * a := by
  unfold square? at h
  split at h
  · simp at h
  · exact (Option.some.inj h).symm

end Scalar

end CoEmbed
