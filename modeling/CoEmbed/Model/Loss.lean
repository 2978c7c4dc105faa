import CoEmbed.Model.Basic
import CoEmbed.Objective

/-!
# The Loss of a Model

* `Model.preferenceLoss`, `Model.neighborLoss`, `Model.ridgeLoss` — the three parts of the
  objective at the parameters of a model.
* `Model.loss` — their sum, which has to be finite.

## Counting convention

Each observed pair is counted once: the first part is taken over the users among the
samples, the second over the items.
-/

namespace CoEmbed

/-- The context of a **user**, or of an item, or the fault of a record that is neither. -/
def Sample.isUser {α : Type} : Sample α → Except Fault Bool
  | .user _ _ => .ok true
  | .item _ _ _ => .ok false
  | .foreign t => .error (.foreignRecord t)

namespace Model

variable {ρ α : Type} [Scalar α] [Operand ρ α] {n : Nat}

/-- The weighted squared error of the preferences. -/
def preferenceLoss (m : Model α n) (samples : List (Sample ρ)) : Except Fault α :=
  CoEmbed.preferenceLoss samples m.beta m.theta m.hyper.unobserved m.hyper.observed

/-- The squared error of the neighbours' weights. -/
def neighborLoss (m : Model α n) (samples : List (Sample ρ)) : Except Fault α :=
  CoEmbed.neighborLoss samples m.beta m.gamma m.seenBetaBias m.seenGammaBias m.globalBias

/-- The three ridges. -/
def ridgeLoss (m : Model α n) : Except Fault α := do
  let theta ← CoEmbed.ridgeLoss m.hyper.ridgeTheta m.theta
  let beta ← CoEmbed.ridgeLoss m.hyper.ridgeBeta m.beta
  let gamma ← CoEmbed.ridgeLoss m.hyper.ridgeGamma m.gamma
  return theta + beta + gamma

/-- The samples of users and those of items. -/
def separate : List (Sample ρ) → Except Fault (List (Sample ρ) × List (Sample ρ))
  | [] => .ok ([], [])
  | s :: samples => do
    let isUser ← s.isUser
    let (users, items) ← separate samples
    return if isUser then (s :: users, items) else (users, s :: items)

/-- The **objective** at the parameters of a model. -/
def loss (m : Model α n) (samples : List (Sample ρ)) : Except Fault α := do
  let (users, items) ← separate samples
  let total := (← m.preferenceLoss users) + (← m.neighborLoss items) + (← m.ridgeLoss)
  match Scalar.exceptional? total with
  | some v => throw (.loss (.objective v))
  | none => return total

end Model

end CoEmbed
