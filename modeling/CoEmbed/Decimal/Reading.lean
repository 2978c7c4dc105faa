import CoEmbed.Decimal.Binary
import CoEmbed.Text.Blank
import CoEmbed.Text.Digit

/-!
# Reading Numbers

The texts that are read as numbers, as whole numbers and as decimals.

* `Decimal.Literal` — what a text says: a decimal, or one of the values that are not finite.
* `Decimal.readWhole?` — the whole number of a text.
* `Decimal.readLiteral?` — the literal of a text.
* `Decimal.Literal.toFloat` — the floating point number nearest to a literal.

## Grammar convention

Blanks around a number are ignored and a sign may stand in front of it. The digits of all
scripts are read alike, and single underscores may stand between two of them. A decimal
needs a digit before or after its point; the exceptional values are named `nan`, `inf` and
`infinity` in any case.

## Length convention

A whole number is given up if its text has more than a fixed number of digits, leading zeros
included; a decimal may have any number of them.
-/

namespace CoEmbed.Decimal

/-- What the text of a number says. -/
inductive Literal where
  | exceptional (e : Exceptional)
  | finite (negative : Bool) (digits : Nat) (exponent : Int)
  deriving Repr

/-- The value of a digit. -/
def digitValue (c : Char) : Nat := c.toNat - '0'.toNat

/-- The value of a list of digits, read after a number `n`. -/
def valueAfter (n : Nat) (ds : List Char) : Nat := ds.foldl (fun n c => 10 * n + digitValue c) n

/-- Splits off the digits at the front, without the underscores between them. The flag says
that the last character was a digit, so that an underscore may follow. -/
def spanDigits : Bool → List Char → List Char × List Char
  | _, [] => ([], [])
  | afterDigit, c :: cs =>
    if c.isDigit then
      let (ds, rest) := spanDigits true cs
      (c :: ds, rest)
    else if c = '_' ∧ afterDigit then
      match cs with
      | d :: ds' =>
        if d.isDigit then
          let (ds, rest) := spanDigits true ds'
          (d :: ds, rest)
        else ([], c :: cs)
      | [] => ([], c :: cs)
    else ([], c :: cs)

/-- Splits off a sign; without one the number is positive. -/
def spanSign : List Char → Bool × List Char
  | '-' :: cs => (true, cs)
  | '+' :: cs => (false, cs)
  | cs => (false, cs)

/-- The character that a character is read as: a digit of any script as the one of ASCII, and
a blank outside ASCII as a space. -/
def plainChar (c : Char) : Char :=
  if c.toNat < 127 then c else if Text.isBlank c then ' ' else Text.plainDigit c

/-- The characters of a number, **without the blanks** around it. -/
def plainText (s : String) : List Char :=
  Text.trimmedOf Text.isLayout (s.toList.map plainChar)

/-- The greatest number of digits of a whole number. -/
def mostDigits : Nat := 4300

/-- The **whole number** of a text. -/
def readWhole? (s : String) : Option Int :=
  let (negative, cs) := spanSign (plainText s)
  match spanDigits false cs with
  | ([], _) => none
  | (ds, []) =>
    if mostDigits < ds.length then none
    else
      let n : Int := (valueAfter 0 ds : Nat)
      some (if negative then -n else n)
  | _ => none

/-- The exponent at the end of a decimal, none being zero. -/
def readExponent? : List Char → Option Int
  | [] => some 0
  | c :: cs =>
    if c = 'e' ∨ c = 'E' then
      let (negative, cs) := spanSign cs
      match spanDigits false cs with
      | ([], _) => none
      | (ds, []) =>
        let n : Int := (valueAfter 0 ds : Nat)
        some (if negative then -n else n)
      | _ => none
    else none

/-- The digits after a point, if there is a point. -/
def spanFraction : List Char → List Char × List Char
  | '.' :: cs => spanDigits false cs
  | cs => ([], cs)

/-- The value with a name, without its sign. -/
def exceptionalNamed? (name : String) : Option Exceptional :=
  if name = "nan" then some .notANumber
  else if name = "inf" ∨ name = "infinity" then some .positiveInfinity
  else none

/-- The exceptional value with the sign in front of it. -/
def signed (negative : Bool) : Exceptional → Exceptional
  | .positiveInfinity => if negative then .negativeInfinity else .positiveInfinity
  | e => e

/-- The **literal** of a text. -/
def readLiteral? (s : String) : Option Literal :=
  let (negative, cs) := spanSign (plainText s)
  match exceptionalNamed? (Text.lowerAscii (String.ofList cs)) with
  | some e => some (.exceptional (signed negative e))
  | none =>
    let (whole, rest) := spanDigits false cs
    let (fraction, rest) := spanFraction rest
    if whole = [] ∧ fraction = [] then none
    else (readExponent? rest).map fun e =>
      .finite negative (valueAfter 0 (whole ++ fraction)) (e - (fraction.length : Int))

/-- The **nearest floating point number**. Decimals far outside the range of the format go
to infinity and to zero without being computed. -/
def Literal.toFloat : Literal → Float
  | .exceptional .notANumber => 0.0 / 0.0
  | .exceptional .positiveInfinity => 1.0 / 0.0
  | .exceptional .negativeInfinity => -1.0 / 0.0
  | .finite negative n e =>
    let size : Int := (digits n).length + e
    let magnitude : Float :=
      if n = 0 ∨ size < -400 then 0.0
      else if 400 < size then 1.0 / 0.0
      else Float.ofScientific n (decide (e < 0)) e.natAbs
    if negative then -magnitude else magnitude

end CoEmbed.Decimal
