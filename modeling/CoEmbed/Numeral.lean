import CoEmbed.Decimal.Reading
import CoEmbed.Decimal.Shortest

/-!
# Numerals

Scalars that come from outside are read from a text, written into messages, and cut down to
whole numbers.

* `Numeral` — a type of scalars with these three operations.
* `Numeral.layout` — how a floating point number is written.
-/

namespace CoEmbed

/-- A type of scalars that are **written and read**. -/
class Numeral (α : Type) extends Scalar α where
  /-- The text of a scalar. -/
  text : α → String
  /-- The scalar of a text, if the text is one. -/
  ofText? : String → Option α
  /-- The whole number nearest to a finite scalar among those not farther from zero. -/
  truncate : α → Int

/-- Decimals from one ten-thousandth up to sixteen digits before the point are written
without an exponent. -/
def Numeral.layout : Layout := ⟨-4, 15⟩

/-- A finite floating point number without its fractional part. -/
def Binary.truncate (b : Binary) : Int :=
  let (num, den) := b.quotient
  let n : Int := (num / den : Nat)
  if b.negative then -n else n

instance : Numeral Float where
  text := Numeral.layout.float
  ofText? s := (Decimal.readLiteral? s).map Decimal.Literal.toFloat
  truncate x := (Binary.ofFloat x).truncate

end CoEmbed
