import CoEmbed.Sample

/-!
# The Objective

Training lowers the sum of three parts: the weighted squared error of the preferences, the
squared error of the neighbours' weights, and a ridge on every vector.

* `preferenceLoss` — the first part, over the contexts of one side.
* `neighborLoss` — the second part, over the contexts of items.
* `ridgeLoss` — the third part for one table.

## Fault convention

A square that a finite number has no room for is an overflow; products and sums go to
infinity instead. Vectors that ought to be paired and differ in length are a fault of value,
found when the first sample needs them. Values that are not scalars yet are read where a
term of the sum needs them, so a value that no term needs is no fault.
-/

namespace CoEmbed

variable {ρ κ α : Type} [Scalar α] {m n : Nat}

/-- The square of a scalar, or the fault that it has none. -/
def squared (x : α) : Except Fault α :=
  match Scalar.square? x with
  | some y => .ok y
  | none => .error .overflow

/-- The inner product of two vectors, or the fault that their lengths differ. -/
def paired (u : Vec α m) (v : Vec α n) : Except Fault α :=
  match Vec.pairing u v with
  | some x => .ok x
  | none => .error .badValue

variable [Operand ρ α] [Operand κ α]

/-- The error of one vector against a whole table: every vector of the table counts as
unobserved, and the observed ones are then **exchanged** for their own error. -/
def sliceLoss (v : Vec α m) (others : Factors α n) (features : List (Feature ρ)) (c₀ c₁ : κ) :
    Except Fault α := do
  let predictions ← others.values.mapM fun w => paired w v
  let c₀ : α ← Operand.operand c₀
  let unobserved := c₀ * Scalar.total (predictions.map fun p => p * p)
  features.foldlM (fun loss f => match others.get? f.1 with
    | none => .ok loss
    | some w => do
      let p ← paired v w
      let value : α ← Operand.operand f.2
      let error ← squared (value - p)
      let c₁ : α ← Operand.operand c₁
      return loss + (c₁ * error - c₀ * (← squared p))) unobserved

/-- The weighted squared error of the **preferences**. A context whose own key has no
vector, or that has no vectors to be compared with, adds nothing. -/
def preferenceLoss (samples : List (Sample ρ)) (beta : Factors α m) (theta : Factors α n)
    (c₀ c₁ : κ) : Except Fault α :=
  samples.foldlM (fun loss s => match s with
    | .foreign t => .error (.foreignRecord t)
    | .user u features => match theta.get? u with
      | none => .ok loss
      | some v =>
        if beta.size = 0 then .ok loss
        else (sliceLoss v beta features c₀ c₁).map fun x => loss + x
    | .item i features _ => match beta.get? i with
      | none => .ok loss
      | some v =>
        if theta.size = 0 then .ok loss
        else (sliceLoss v theta features c₀ c₁).map fun x => loss + x) 0

/-- The squared error of one row: what is left of each weight once the inner product and the
biases are taken away. -/
def rowLoss (i : Key) (v : Vec α m) (row : Row ρ) (gamma : Factors α n)
    (betaBias gammaBias : Option (Table Key (Bias α))) (globalBias : κ) (loss : α) : Except Fault α :=
  row.foldlM (fun loss e => match gamma.get? e.1 with
    | none => .ok loss
    | some w => do
      let p ← paired v w
      let weight : α ← Operand.operand e.2
      let globalBias : α ← Operand.operand globalBias
      let x ← squared (weight - p - (biasOf betaBias i).scalar - (biasOf gammaBias e.1).scalar
        - globalBias)
      return loss + x) loss

/-- The squared error of the **neighbours' weights**. Contexts of users add nothing. -/
def neighborLoss (samples : List (Sample ρ)) (beta : Factors α m) (gamma : Factors α n)
    (betaBias gammaBias : Option (Table Key (Bias α))) (globalBias : κ) : Except Fault α :=
  samples.foldlM (fun loss s => match s with
    | .foreign t => .error (.foreignRecord t)
    | .user _ _ => .ok loss
    | .item i _ row => match beta.get? i with
      | none => .ok loss
      | some v => rowLoss i v (row.getD []) gamma betaBias gammaBias globalBias loss) 0

/-- The sum of the squared entries of a table, by way of its square root, times the
**ridge**; a table without vectors has no share in the loss, whatever the ridge. -/
def ridgeLoss (ridge : α) (W : Factors α n) : Except Fault α := do
  if W.size = 0 then return 0
  else
    let norm := Scalar.sqrt (Scalar.total (W.values.map Vec.normSq))
    return ridge * (← squared norm)

end CoEmbed
