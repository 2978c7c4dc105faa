import CoEmbed.Decimal.Reading

/-!
# Decimals in Plain Digits

In a table or a date a number is written in digits of ASCII, without anything between them.

* `Decimal.plainLiteral?` — the decimal of a text.
* `Decimal.infinity?` — an infinity that is named.
* `Decimal.readPlain?` — the number of a text.

## Exponent convention

An exponent has at least one digit and at most seventeen. Layout may stand around a decimal, and
nothing around the name of an infinity.
-/

namespace CoEmbed.Decimal

/-- The greatest number of digits of an exponent. -/
def mostExponentDigits : Nat := 17

/-- The exponent behind a decimal, none being zero. -/
def plainExponent? : List Char → Option Int
  | [] => some 0
  | c :: cs =>
    let (negative, ds) := spanSign cs
    if (c = 'e' ∨ c = 'E') ∧ ds ≠ [] ∧ ds.length ≤ mostExponentDigits ∧ ds.all Char.isDigit then
      let n : Int := (valueAfter 0 ds : Nat)
      some (if negative then -n else n)
    else none

/-- The digits behind a point, if there is a point, and what stands behind them. -/
def plainFraction : List Char → List Char × List Char
  | '.' :: cs => (cs.takeWhile Char.isDigit, cs.dropWhile Char.isDigit)
  | cs => ([], cs)

/-- The **decimal** of a text, with layout around it. -/
def plainLiteral? (s : String) : Option Literal :=
  let (negative, cs) := spanSign (Text.trimmedOf Text.isLayout s.toList)
  let whole := cs.takeWhile Char.isDigit
  let (fraction, rest) := plainFraction (cs.dropWhile Char.isDigit)
  if whole = [] ∧ fraction = [] then none
  else (plainExponent? rest).map fun e =>
    .finite negative (valueAfter 0 (whole ++ fraction)) (e - (fraction.length : Int))

/-- An **infinity** that is named, with nothing around it. -/
def infinity? (s : String) : Option Literal :=
  let (negative, name) := spanSign s.toList
  match exceptionalNamed? (Text.lowerAscii (String.ofList name)) with
  | some .notANumber | none => none
  | some e => some (.exceptional (signed negative e))

/-- The **number of a text**: a decimal, or an infinity. -/
def readPlain? (s : String) : Option Float :=
  ((plainLiteral? s).or (infinity? s)).map Literal.toFloat

end CoEmbed.Decimal
