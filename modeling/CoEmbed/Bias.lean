import CoEmbed.Setting

/-!
# Biases

A bias is taken away from a weight before the rest of the weight is explained by vectors. A
bias that has been learned is a scalar; one that was put in place by hand may be a whole number,
and a whole number is taken away from another one without rounding.

* `Bias` — a bias as it was given.
* `Bias.scalar` — the scalar of a bias.
* `Setting.bias` — the bias that a value stands for.
* `Setting.less` — a value with a bias taken away.

## Size convention

A whole number becomes a bias only if it is the size of a finite scalar, so a bias always has
a scalar.
-/

namespace CoEmbed

/-- A **bias as it was given**. -/
inductive Bias (α : Type) where
  | whole (n : Int)
  | real (x : α)
  deriving DecidableEq, Repr

variable {α : Type}

/-- The **scalar** of a bias. -/
def Bias.scalar [Scalar α] : Bias α → α
  | whole n => Scalar.ofInt n
  | real x => x

/-- A bias that has been learned is its own scalar. -/
@[simp] theorem Bias.scalar_real [Scalar α] (x : α) : (Bias.real x).scalar = x := rfl

namespace Setting

variable [Numeral α]

/-- The **bias** that a value stands for. -/
def bias (s : Setting α) : Except Fault (Bias α) :=
  match s with
  | flag b => .ok (.whole b.toNat)
  | integer n => if Scalar.finite (Scalar.ofInt n : α) then .ok (.whole n) else .error .overflow
  | absent | real _ | text _ => s.scalar.map .real

/-- A value with a **bias taken away**. -/
def less (s : Setting α) : Bias α → Except Fault (Setting α)
  | .whole n => s.minus (.integer n)
  | .real x => s.minus (.real x)

/-- Whole numbers are taken away **without rounding**. -/
theorem less_whole (m n : Int) :
    (integer m : Setting α).less (.whole n) = .ok (.integer (m - n)) := rfl

end Setting

end CoEmbed
