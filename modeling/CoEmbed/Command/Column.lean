import CoEmbed.Decimal.Plain
import CoEmbed.Setting

/-!
# Columns of Fields

The fields of a column are read as values of one kind: whole numbers if all of them are, else
numbers, else flags, else texts.

* `missingWords` — the words for a field that is missing.
* `Word` — what a field says as a whole number of a limited size.
* `wholeColumn` — a column of whole numbers, of any size.
* `columnOf` — the values of a column.

## Missing convention

A missing field belongs to a column of any kind. Among whole numbers it makes all of them
reals, unless one of them is too large for a word of 64 bits.

## Size convention

Whole numbers fit into words of 64 bits, with or without a sign. If they do not, they are
read one by one. A column with a number that needs the word without a sign, and with a
missing field or a number below zero, is one of texts; in it the words for a missing field
stand for themselves.
-/

namespace CoEmbed

/-- The words that stand for a **missing** field. -/
def missingWords : List String :=
  ["", "#N/A", "#N/A N/A", "#NA", "-1.#IND", "-1.#QNAN", "-NaN", "-nan", "1.#IND", "1.#QNAN",
   "<NA>", "N/A", "NA", "NULL", "NaN", "None", "n/a", "nan", "null"]

/-- A field that is missing. -/
def isMissing (field : String) : Bool := missingWords.contains field

/-- The fields that are not missing. -/
def presentFields (fields : List String) : List String := fields.filter fun f => !isMissing f

/-- The values of the fields that are not missing. -/
def fieldValues (read : String → Setting Float) (fields : List String) : List (Setting Float) :=
  fields.map fun f => if isMissing f then .absent else read f

/-- The fields with **every word taken literally**. -/
def literalTexts (fields : List String) : List (Setting Float) := fields.map .text

/-- What a field says as a **whole number** of a limited size. -/
inductive Word where
  | number (n : Int)
  | tooLarge
  | none
  deriving DecidableEq, Repr

namespace Word

/-- The whole number of a word, zero if there is none. -/
def value : Word → Int
  | number n => n
  | tooLarge | none => 0

/-- There is a whole number. -/
def isNumber : Word → Bool
  | number _ => true
  | tooLarge | none => false

/-- Reads digits after a sign, with nothing but layout behind them. -/
def ofDigits (least most : Int) (negative : Bool) (cs : List Char) : Word :=
  let ds := cs.takeWhile Char.isDigit
  let size : Int := (Decimal.valueAfter 0 ds : Nat)
  let n := if negative then -size else size
  if ds.isEmpty ∨ !(cs.dropWhile Char.isDigit).all Text.isLayout then none
  else if n < least ∨ most < n then tooLarge
  else number n

/-- The characters of a field without the layout in front of them. -/
def body (field : String) : List Char := field.toList.dropWhile Text.isLayout

/-- The least whole number with a sign. -/
def leastSigned : Int := -(twoTo 63 : Int)

/-- The greatest whole number with a sign. -/
def mostSigned : Int := (twoTo 63 : Int) - 1

/-- The greatest whole number without a sign. -/
def mostUnsigned : Int := (twoTo 64 : Int) - 1

/-- Reads a word of 64 bits **with a sign**. -/
def signed (field : String) : Word :=
  let (negative, cs) := Decimal.spanSign (body field)
  ofDigits leastSigned mostSigned negative cs

/-- A field that opens with a minus. -/
def isNegative (field : String) : Bool := (Decimal.spanSign (body field)).1

/-- Reads a word of 64 bits **without a sign**. What opens with a minus is not looked at any
further. -/
def unsigned (field : String) : Word :=
  let (negative, cs) := Decimal.spanSign (body field)
  if negative then number 0 else ofDigits 0 mostUnsigned false cs

end Word

/-- The whole number of a field, of any size, in digits of ASCII. -/
def wholeOf? (field : String) : Option Int :=
  if field.toList.all fun c => c.toNat < 128 then Decimal.readWhole? field else none

/-- A column of whole numbers that are read **one by one**. -/
def largeColumn (fields : List String) : List (Setting Float) :=
  if (presentFields fields).all fun f => (wholeOf? f).isSome then
    fieldValues (fun f => .integer ((wholeOf? f).getD 0)) fields
  else literalTexts fields

/-- A column whose numbers are too large for words with a sign. It may turn out not to be one
of whole numbers. -/
def unsignedColumn (fields : List String) : Option (List (Setting Float)) :=
  let present := presentFields fields
  let words := present.map Word.unsigned
  match words.find? fun w => !w.isNumber with
  | some .tooLarge => some (largeColumn fields)
  | some _ => none
  | none =>
    let needed := words.any fun w => decide (Word.mostSigned < w.value)
    let negative := present.any Word.isNegative
    if needed && (negative || present.length < fields.length) then some (literalTexts fields)
    else if negative then some (largeColumn fields)
    else some (words.map fun w => .integer w.value)

/-- A column of **whole numbers**, if it is one. The first field that is none, or that is too
large for a word, decides how to go on. -/
def wholeColumn (fields : List String) : Option (List (Setting Float)) :=
  let present := presentFields fields
  match (present.map Word.signed).find? fun w => !w.isNumber with
  | some .tooLarge => unsignedColumn fields
  | some _ => none
  | none =>
    if present.length < fields.length then
      some (fieldValues (fun f => .real (Scalar.ofInt (Word.signed f).value)) fields)
    else some (fields.map fun f => .integer (Word.signed f).value)

/-- A column of fields that are **all read** in one way. -/
def columnIf (read : String → Option (Setting Float)) (fields : List String) :
    Option (List (Setting Float)) :=
  if (presentFields fields).all fun f => (read f).isSome then
    some (fieldValues (fun f => (read f).getD .absent) fields)
  else none

/-- The flag of a field. -/
def flagOf? (field : String) : Option (Setting Float) :=
  match Text.lowerAscii field with
  | "true" => some (.flag true)
  | "false" => some (.flag false)
  | _ => none

/-- The number of a field. -/
def realOf? (field : String) : Option (Setting Float) := (Decimal.readPlain? field).map .real

/-- The **values of a column**. -/
def columnOf (fields : List String) : List (Setting Float) :=
  (wholeColumn fields <|> columnIf realOf? fields <|> columnIf flagOf? fields).getD
    (fieldValues .text fields)

end CoEmbed
