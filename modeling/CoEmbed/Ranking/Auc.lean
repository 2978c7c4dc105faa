import CoEmbed.Scalar

/-!
# The Area under the Curve

How well scores tell wanted items from unwanted ones: the share of pairs of a wanted and an
unwanted item in which the wanted one scores higher, a tie counting one half.

* `wins`, `ties` — the pairs that are won, and those that are tied.
* `auc` — their share of all pairs.
-/

namespace CoEmbed

variable {α : Type} [Scalar α]

/-- The number of pairs in which the **first** score is higher. -/
def wins (positive negative : List α) : Nat :=
  (positive.flatMap fun p => negative.filter fun n => Scalar.lt n p).length

/-- The number of pairs whose scores are **equal**. -/
def ties (positive negative : List α) : Nat :=
  (positive.flatMap fun p => negative.filter fun n => Scalar.eq p n).length

/-- The **area under the curve**; there is none if one side is empty. -/
def auc (positive negative : List α) : Option α :=
  if positive.isEmpty || negative.isEmpty then none
  else
    let won : α := Scalar.ofNat (wins positive negative)
    let tied : α := Scalar.half * Scalar.ofNat (ties positive negative)
    some ((won + tied) / Scalar.ofNat (positive.length * negative.length))

end CoEmbed
