import CoEmbed.Fault
import CoEmbed.Numeral

/-!
# Settings

A hyperparameter is checked, and shown in messages, in the form in which it was given: `0`
and `0.0` are one number and two texts.

* `Setting` — a value as it was given.
* `Setting.text`, `Setting.quoted` — the two ways a setting stands in a message.
* `Setting.number` — the number that a setting is compared as.
* `Setting.scalar`, `Setting.whole`, `Setting.count`, `Setting.operand`, `Setting.measured`,
  `Setting.scale`, `Setting.addend` — conversions, each with its own idea of what it accepts.
* `Setting.plus`, `Setting.minus` — the sum and the difference of two settings.
* `Setting.holds` — whether a setting counts as true.

## Comparison convention

Flags compare as zero and one. A text and an absent value cannot be compared with a number;
asking for it is a fault of type, also when the outcome would not matter.
-/

namespace CoEmbed

/-- A value **as it was given**. -/
inductive Setting (α : Type) where
  | absent
  | flag (b : Bool)
  | integer (n : Int)
  | real (x : α)
  | text (s : String)
  deriving Inhabited

namespace Setting

variable {α : Type} [Numeral α]

/-- The setting as it stands in a message. -/
def shown : Setting α → String
  | .absent => "None"
  | .flag b => flagText b
  | .integer n => toString n
  | .real x => Numeral.text x
  | .text s => s

/-- The setting as it stands in a message, a text between quotes. -/
def quoted : Setting α → String
  | .text s => Text.quoted s
  | s => s.shown

/-- The **number** that a setting is compared as. -/
def number : Setting α → Except Fault α
  | .flag b => .ok (if b then 1 else 0)
  | .integer n => .ok (Scalar.ofInt n)
  | .real x => .ok x
  | .absent | .text _ => .error .badType

/-- Whether a setting **counts as true**. -/
def holds : Setting α → Bool
  | .absent => false
  | .flag b => b
  | .integer n => n ≠ 0
  | .real x => !Scalar.eq x 0
  | .text s => s ≠ ""

/-- The **scalar** of a setting; a text may be the text of a number. -/
def scalar : Setting α → Except Fault α
  | .flag b => .ok (if b then 1 else 0)
  | .integer n =>
    let x : α := Scalar.ofInt n
    if Scalar.finite x then .ok x else .error .overflow
  | .real x => .ok x
  | .text s => match Numeral.ofText? s with
    | some x => .ok x
    | none => .error .badValue
  | .absent => .error .badType

/-- The scalar of a setting that a computation **takes part in**: a text is no scalar. -/
def operand : Setting α → Except Fault α
  | .text _ => .error .badType
  | s => s.scalar

/-- The scalar that an array is **scaled or shifted** by. -/
def scale : Setting α → Except Fault α
  | .text _ => .error .badOperand
  | s => s.scalar

/-- The scalar that is **added in place** to entries of an array, which have room for nothing
but scalars. -/
def addend : Setting α → Except Fault α
  | .absent => .error .badOperand
  | s => s.scale

/-- The scalar of a setting that is **measured**: a whole number has to fit into a word of 64
bits, with or without a sign. -/
def measured : Setting α → Except Fault α
  | .integer n =>
    if -(twoTo 63 : Int) ≤ n ∧ n < (twoTo 64 : Int) then .ok (Scalar.ofInt n)
    else .error .badType
  | s => s.operand

/-- The **sum** of two settings, which is whole if both of them are. -/
def plus : Setting α → Setting α → Except Fault (Setting α)
  | .integer m, .integer n => .ok (.integer (m + n))
  | .integer m, .flag b => .ok (.integer (m + b.toNat))
  | s, t => do return .real ((← s.operand) + (← t.operand))

/-- The **difference** of two settings, which is whole if both of them are. -/
def minus : Setting α → Setting α → Except Fault (Setting α)
  | .integer m, .integer n => .ok (.integer (m - n))
  | .integer m, .flag b => .ok (.integer (m - b.toNat))
  | .flag b, .integer n => .ok (.integer (b.toNat - n))
  | s, t => do return .real ((← s.operand) - (← t.operand))

/-- The **whole number** of a setting, its fractional part cut off. -/
def whole : Setting α → Except Fault Int
  | .flag b => .ok (if b then 1 else 0)
  | .integer n => .ok n
  | .real x => match Scalar.exceptional? x with
    | none => .ok (Numeral.truncate x)
    | some .notANumber => .error .badValue
    | some _ => .error .overflow
  | .text s => match Decimal.readWhole? s with
    | some n => .ok n
    | none => .error .badValue
  | .absent => .error .badType

/-- The whole number of a setting that has to be **given as one**. -/
def count : Setting α → Except Fault Int
  | .flag b => .ok (if b then 1 else 0)
  | .integer n => .ok n
  | .absent | .real _ | .text _ => .error .badType

/-- One value comes **before** another: texts by their characters, numbers by size; a value
that is absent comes before nothing. -/
def before : Setting α → Setting α → Except Fault Bool
  | .text s, .text t => .ok (decide (s < t))
  | .integer m, .integer n => .ok (decide (m < n))
  | .absent, _ => .ok false
  | s, t => do return Scalar.lt (← s.number) (← t.number)

/-- The **key** that a value names; what is not a number names none, and zero names one key
whatever its sign. -/
def key : Setting α → Key
  | .text s => .text s
  | .integer n => .number n
  | .flag b => .flag b
  | .real x => if Scalar.exceptional? x = some .notANumber then .missing
    else .decimal (Numeral.text (if Scalar.eq x 0 then 0 else x))
  | .absent => .missing

/-- The setting is below a number. -/
def below (s : Setting α) (bound : α) : Except Fault Bool :=
  s.number.map fun x => Scalar.lt x bound

/-- The setting is not above a number. -/
def atMost (s : Setting α) (bound : α) : Except Fault Bool :=
  s.number.map fun x => Scalar.le x bound

/-- The setting lies between zero and one. -/
def isShare (s : Setting α) : Except Fault Bool :=
  s.number.map fun x => Scalar.le 0 x && Scalar.le x 1

end Setting

/-- What has been read, if it is **needed**; what is not needed counts as zero, also where it
could not be read. -/
def ifNeeded {α : Type} [Zero α] (needed : Bool) (read : Except Fault α) : Except Fault α :=
  if needed then read else .ok 0

/-- Stops with a refusal if the condition holds. -/
def refuseIf (condition : Bool) (r : Refusal) : Except Fault Unit :=
  if condition then .error (.refused r) else .ok ()

end CoEmbed
