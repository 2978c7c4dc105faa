import CoEmbed.Survey

/-!
# Columns and Thresholds

The values of a column that lie below a threshold. How a value is compared depends on what
else is in its column.

* `ColumnKind`, `kindOf` — what a column is made of.
* `Setting.under` — one value is below another, both taken as they are.
* `below` — the values of a column below a threshold.
* `under_integer`, `under_flag` — whole numbers and flags compare by size.

## Exactness convention

Reals are compared with a real, whatever the threshold was given as. Whole numbers are compared
with a whole number exactly, and with a real as reals. In a column of several kinds each value
is compared for itself, and a whole number with a real exactly.

## Missing convention

A missing value is below nothing, and nothing is below a threshold that is no number; where a
column is of several kinds, neither is asked whether the two could have been compared.
-/

namespace CoEmbed

variable {α : Type}

/-- What a column is **made of**: reals, some of which may be missing, whole numbers that fit
into words of one kind, flags, or anything else. -/
inductive ColumnKind where
  | reals
  | wholes
  | flags
  | values
  deriving DecidableEq, Repr

namespace Setting

/-- The value is a real. -/
def isReal : Setting α → Bool
  | real _ => true
  | absent | flag _ | integer _ | text _ => false

/-- The value is missing. -/
def isAbsent : Setting α → Bool
  | absent => true
  | flag _ | integer _ | real _ | text _ => false

/-- The value is a flag. -/
def isFlag : Setting α → Bool
  | flag _ => true
  | absent | integer _ | real _ | text _ => false

/-- The value is a whole number within some bounds. -/
def isWholeWithin (least bound : Int) : Setting α → Bool
  | integer n => decide (least ≤ n) && decide (n < bound)
  | absent | flag _ | real _ | text _ => false

end Setting

/-- The **kind of a column**. An empty column is of no kind in particular. -/
def kindOf (column : List (Setting α)) : ColumnKind :=
  if column.isEmpty then .values
  else if column.any Setting.isReal && column.all fun v => v.isReal || v.isAbsent then .reals
  else if column.all (Setting.isWholeWithin (-(twoTo 63 : Int)) (twoTo 63 : Int))
      || column.all (Setting.isWholeWithin 0 (twoTo 64 : Int)) then .wholes
  else if column.all Setting.isFlag then .flags
  else .values

namespace Setting

variable [Numeral α]

/-- The value is not a number, or missing. -/
def isNothing : Setting α → Bool
  | absent => true
  | real x => decide (Scalar.exceptional? x = some .notANumber)
  | flag _ | integer _ | text _ => false

/-- The whole number of a flag. -/
def ofFlag : Setting α → Setting α
  | flag b => integer b.toNat
  | v => v

/-- A whole number is **below a real**, which counts as it is and not as it is rounded. -/
def wholeUnder (n : Int) (x : α) : Bool :=
  match Scalar.exceptional? x with
  | some e => decide (e = .positiveInfinity)
  | none =>
    let t := Numeral.truncate x
    decide (n < t) || decide (n = t) && Scalar.lt (Scalar.ofInt t) x

/-- A real is **below a whole number**. -/
def realUnder (x : α) (n : Int) : Bool :=
  match Scalar.exceptional? x with
  | some e => decide (e = .negativeInfinity)
  | none =>
    let t := Numeral.truncate x
    decide (t < n) || decide (t = n) && Scalar.lt x (Scalar.ofInt t)

/-- One value is **below another**, both of them taken as they are. -/
def under (s t : Setting α) : Except Fault Bool :=
  if s.isNothing || t.isNothing then .ok false
  else match s.ofFlag, t.ofFlag with
    | .integer n, .real x => .ok (wholeUnder n x)
    | .real x, .integer n => .ok (realUnder x n)
    | s, t => s.before t

/-- Whole numbers compare by size. -/
@[simp] theorem under_integer (m n : Int) :
    (integer m : Setting α).under (integer n) = .ok (decide (m < n)) := rfl

/-- A flag counts as zero or one. -/
@[simp] theorem under_flag (b : Bool) (n : Int) :
    (flag b : Setting α).under (integer n) = .ok (decide ((b.toNat : Int) < n)) := rfl

/-- A threshold for flags, which has to **fit into a word** of 64 bits if it is whole. -/
def fitting : Setting α → Except Fault (Setting α)
  | integer n =>
    if -(twoTo 63 : Int) ≤ n ∧ n < (twoTo 63 : Int) then .ok (integer n) else .error .overflow
  | v => .ok v

end Setting

/-- The values of a column **below a threshold**. -/
def below [Numeral α] (column : List (Setting α)) (threshold : Setting α) :
    Except Fault (List Bool) :=
  match kindOf column with
  | .reals => do
    let x ← threshold.operand
    column.mapM fun v => v.before (.real x)
  | .wholes => column.mapM fun v => v.before threshold
  | .flags => do
    let t ← threshold.fitting
    column.mapM fun v => v.before t
  | .values => column.mapM fun v => v.under threshold

end CoEmbed
