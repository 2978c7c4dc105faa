import CoEmbed.Decimal.Rounding
import CoEmbed.Scalar

/-!
# The Exact Value of a Floating Point Number

A finite floating point number is a whole number of units of a power of two. Every text of
such a number is computed from that exact value.

* `Binary` — sign, significand and binary exponent; `Binary.ofFloat` reads them off.
* `Binary.scientific` — one digit, a point, a fixed number of digits, and an exponent.
* `Binary.fixed` — a fixed number of digits after the point.

## Tie convention

A value half way between two decimals goes to the one whose last digit is even, and the
value that is rounded is the exact one, so a tie arises only where the number itself has
that many binary digits.
-/

namespace CoEmbed

/-- The number `± significand · 2 ^ exponent`. -/
structure Binary where
  negative : Bool
  significand : Nat
  exponent : Int
  deriving Repr, DecidableEq

namespace Binary

/-- The exact value of a **finite** floating point number. -/
def ofFloat (x : Float) : Binary :=
  let bits : Nat := x.toBits.toNat
  let fraction : Nat := bits % twoTo 52
  let biased : Nat := bits / twoTo 52 % twoTo 11
  let negative := decide (twoTo 63 ≤ bits)
  if biased = 0 then ⟨negative, fraction, -1074⟩
  else ⟨negative, fraction + twoTo 52, (biased : Int) - 1075⟩

/-- The magnitude as a quotient. -/
def quotient (b : Binary) : Nat × Nat :=
  if 0 ≤ b.exponent then (b.significand * twoTo b.exponent.toNat, 1)
  else (b.significand, twoTo (-b.exponent).toNat)

/-- The text in front of the digits. -/
def sign (b : Binary) : String := if b.negative then "-" else ""

/-- **Scientific form** with `places` digits after the point. -/
def scientific (places : Nat) (b : Binary) : String :=
  let (num, den) := b.quotient
  let (ds, unit) := if num = 0 then (0, -(places : Int)) else Decimal.significant (places + 1) num den
  let text := Decimal.digits ds
  let text := List.replicate (places + 1 - text.length) '0' ++ text
  b.sign ++ String.ofList (Decimal.pointed text) ++ "e" ++ Decimal.exponentText (unit + places)

/-- **Fixed form** with `places` digits after the point. -/
def fixed (places : Nat) (b : Binary) : String :=
  let (num, den) := b.quotient
  let text := Decimal.digits (roundDiv (num * tenTo places) den)
  let text := List.replicate (places + 1 - text.length) '0' ++ text
  let whole := text.take (text.length - places)
  let rest := text.drop (text.length - places)
  b.sign ++ String.ofList whole ++ (if places = 0 then "" else "." ++ String.ofList rest)

end Binary

/-- The text of a floating point number whose finite values are written by `finite`. -/
def writeFloat (finite : Binary → String) (x : Float) : String :=
  match Scalar.exceptional? x with
  | some e => e.text
  | none => finite (Binary.ofFloat x)

end CoEmbed
