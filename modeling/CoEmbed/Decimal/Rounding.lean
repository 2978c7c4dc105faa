/-!
# Decimal Rounding

Decimal digits of an exact quotient of natural numbers. Nothing here knows about floating
point: a value is a pair `num / den`, and each function says which decimal it stands for.

* `twoTo`, `tenTo` — the powers that the two systems of digits count in.
* `roundDiv` — the nearest natural number, a half going to the even neighbour.
* `Decimal.exponent` — the power of ten that a positive quotient reaches.
* `Decimal.significant` — the first digits of a quotient and the power of ten they count.
* `Decimal.thousands` — a natural number with a comma before every third digit.
-/

namespace CoEmbed

/-- The powers of two. -/
def twoTo (k : Nat) : Nat := Nat.pow 2 k

/-- The powers of ten. -/
def tenTo (k : Nat) : Nat := Nat.pow 10 k

/-- The natural number nearest to `num / den`; a **half goes to the even neighbour**. -/
def roundDiv (num den : Nat) : Nat :=
  let q := num / den
  let twice := 2 * (num % den)
  if twice < den then q
  else if den < twice then q + 1
  else if q % 2 = 0 then q else q + 1

/-- A quotient without remainder is its own rounding. -/
theorem roundDiv_mul_self (q : Nat) {den : Nat} (h : 0 < den) : roundDiv (q * den) den = q := by
  simp [roundDiv, h]

namespace Decimal

/-- The decimal digits of a natural number, the leading one first. -/
def digits (n : Nat) : List Char := Nat.toDigits 10 n

/-- `num / den · 10 ^ k`, again as a quotient. -/
def scaled (num den : Nat) (k : Int) : Nat × Nat :=
  if 0 ≤ k then (num * tenTo k.toNat, den) else (num, den * tenTo (-k).toNat)

/-- The largest `e` with `10 ^ e ≤ num / den`, for a positive quotient. -/
def exponent (num den : Nat) : Int :=
  let guess : Int := (digits num).length - (digits den).length
  let (p, q) := scaled num den (-guess)
  if q ≤ p then guess else guess - 1

/-- The quotient `num / den`, rounded to `count` significant digits, as a whole number of
units of the power of ten that is returned with it. -/
def significant (count num den : Nat) : Nat × Int :=
  let unit := exponent num den - (count - 1 : Nat)
  let (p, q) := scaled num den (-unit)
  let r := roundDiv p q
  if r = tenTo count then (tenTo (count - 1), unit + 1) else (r, unit)

/-- The exponent of a number in scientific form: a sign and at least two digits. -/
def exponentText (e : Int) : String :=
  let ds := digits e.natAbs
  let ds := if ds.length < 2 then '0' :: ds else ds
  String.ofList ((if e < 0 then '-' else '+') :: ds)

/-- Digits with the point after the first one. -/
def pointed : List Char → List Char
  | [] => []
  | [d] => [d]
  | d :: ds => d :: '.' :: ds

/-- The list of characters with a comma before every group of three, counted from the
right. -/
def grouped (ds : List Char) : List Char :=
  (ds.reverse.mapIdx fun i d => if i % 3 = 0 ∧ i ≠ 0 then [',', d] else [d]).flatten.reverse

/-- A natural number with its **thousands** set apart by commas. -/
def thousands (n : Nat) : String := String.ofList (grouped (digits n))

end Decimal

end CoEmbed
