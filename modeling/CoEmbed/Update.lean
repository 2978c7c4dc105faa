import CoEmbed.Gram
import CoEmbed.Operand

/-!
# Closed-Form Updates

With all other parameters fixed, each vector and each bias has a best value that is found in
one step. The functions here compute those values and write nothing.

* `weightedSum` — the sum of the vectors of a list of keys, times a weight.
* `unexplained` — what the biases leave of the weights of an item's neighbours.
* `pull` — what the weighted neighbours of an item ask of its vector.
* `newTheta`, `newBeta`, `newGamma` — the best vector of a user, of an item, and of an item
  seen as a neighbour.
* `newBias`, `newGlobalBias` — the best bias of an item and of all pairs.

## Row convention

A row lists the neighbours of an item with their weights. A neighbour without a vector is
passed over, in sums and in counts alike; a row that lists a neighbour twice counts it
twice. Where no neighbour is left there is nothing to fit, and the answer is `none`. The
weights of a row may be scalars, or values as they were given; the weight of a neighbour
without a vector is never read.
-/

namespace CoEmbed

/-- The **weighted neighbours** of an item. -/
abbrev Row (α : Type) := List (Key × α)

/-- The bias of a key; zero if it has none, or if biases are not in use. -/
def biasOf {α : Type} [Scalar α] (t : Option (Table Key (Bias α))) (k : Key) : Bias α :=
  match t with
  | some t => (t.get? k).getD (.real 0)
  | none => .real 0

variable {ρ α : Type} [Scalar α] {n : Nat}

/-- The **sum of the vectors** of a list of keys, times `c`. -/
def weightedSum (ks : List Key) (W : Factors α n) (c : α) : Vec α n :=
  ks.foldl (fun out k => match W.get? k with
    | some v => Vec.addScaled out c v
    | none => out) Vec.zero

/-- What the neighbours in a row **ask of the vector** of an item: the sum of their vectors, each
times the part of its weight that no bias explains. The row holds what the biases of the items
have left. -/
def pull (row : Row α) (W : Factors α n) (globalBias : α) : Vec α n :=
  row.foldl (fun out e => match W.get? e.1 with
    | some v => Vec.addScaled out (e.2 - globalBias) v
    | none => out) Vec.zero

/-- The best vector of a **user** who rated the given items. -/
def newTheta (rated : List Key) (beta : Factors α n) (background : Mat α n n) (c₀ c₁ : α) :
    Except Fault (Vec α n) :=
  solveSystem (Mat.add background (beta.gramOn rated (c₁ - c₀))) (weightedSum rated beta c₁)

variable [Operand ρ α]

/-- What is **left of the weights** in the row of `k` once its own bias and those of its
neighbours are taken away. Only the weights of those neighbours are read that have a vector. -/
def unexplained (k : Key) (row : Row ρ) (own other : Option (Table Key (Bias α)))
    (W : Factors α n) : Except Fault (Row α) :=
  readEntries (fun j => decide (j ∈ W))
    (fun e => residual e.2 (biasOf own k) (biasOf other e.1)) row

/-- Of a row of scalars the differences are left. -/
@[simp] theorem unexplained_scalars (k : Key) (row : Row α)
    (own other : Option (Table Key (Bias α))) (W : Factors α n) :
    unexplained k row own other W = .ok (row.map fun e =>
      (e.1, e.2 - (biasOf own k).scalar - (biasOf other e.1).scalar)) := by
  simp [unexplained]

/-- The best vector of an **item** with the given raters and neighbours. -/
def newBeta (item : Key) (raters : List Key) (row : Row ρ) (theta gamma : Factors α n)
    (betaBias gammaBias : Option (Table Key (Bias α))) (background : Mat α n n)
    (c₀ c₁ globalBias : α) : Except Fault (Vec α n) := do
  let rest ← unexplained item row betaBias gammaBias gamma
  let target := Vec.add (weightedSum raters theta c₁) (pull rest gamma globalBias)
  let raterPart := theta.gramOn raters (c₁ - c₀)
  let correction := if row.isEmpty then raterPart
    else Mat.add raterPart (gamma.gramOn (row.map Prod.fst) 1)
  solveSystem (Mat.add background correction) target

/-- The best vector of an item **as a neighbour**, or `none` if none of its own neighbours
has a vector. -/
def newGamma (item : Key) (row : Row ρ) (beta : Factors α n)
    (betaBias gammaBias : Option (Table Key (Bias α))) (ridge globalBias : α) :
    Except Fault (Option (Vec α n)) :=
  let neighbors := (row.map Prod.fst).filter fun j => decide (j ∈ beta)
  if neighbors.isEmpty then .ok none
  else do
    let rest ← unexplained item row gammaBias betaBias beta
    let target := pull rest beta globalBias
    (solveSystem (Mat.addRidge (beta.gramOn neighbors 1) ridge) target).map some

/-- A running sum and the number of its terms. -/
structure Tally (α : Type) where
  sum : α
  count : Nat

namespace Tally

/-- The tally of no terms. -/
def empty : Tally α := ⟨0, 0⟩

/-- The tally with one more term. -/
def add (t : Tally α) (x : α) : Tally α := ⟨t.sum + x, t.count + 1⟩

/-- The mean of the terms, if there are any. -/
def mean? (t : Tally α) : Option α :=
  if t.count = 0 then none else some (t.sum / Scalar.ofNat t.count)

end Tally

/-- Adds to a tally what is left of each weight in a row once the inner product with the
neighbour's vector and the biases are taken away. Vectors of different lengths have no inner
product. -/
def tallyRow {m : Nat} (v : Vec α m) (row : Row ρ) (W : Factors α n)
    (rest : α → Key → α → α) (t : Tally α) : Except Fault (Tally α) :=
  row.foldlM (fun t e => match W.get? e.1 with
    | none => .ok t
    | some w => match Vec.pairing v w with
      | some p => do return t.add (rest (← Operand.operand e.2) e.1 p)
      | none => .error .badValue) t

/-- The best **bias** of an item, or `none` if it has no vector or no neighbour with one. -/
def newBias {m : Nat} (item : Key) (row : Row ρ) (own : Factors α m) (others : Factors α n)
    (otherBias : Option (Table Key (Bias α))) (globalBias : α) : Except Fault (Option α) :=
  match own.get? item with
  | none => .ok none
  | some v =>
    (tallyRow v row others (fun w j p => w - p - (biasOf otherBias j).scalar - globalBias)
      .empty).map Tally.mean?

/-- The best **global bias** over the rows of the given items, or `none` if no neighbour in
any of them can be paired. -/
def newGlobalBias {m : Nat} (items : List Key) (rows : Table Key (Row ρ)) (beta : Factors α m)
    (gamma : Factors α n) (betaBias gammaBias : Option (Table Key (Bias α))) :
    Except Fault (Option α) :=
  let step (t : Tally α) (i : Key) : Except Fault (Tally α) :=
    match beta.get? i, rows.get? i with
    | some v, some row =>
      tallyRow v row gamma
        (fun w j p => w - p - (biasOf betaBias i).scalar - (biasOf gammaBias j).scalar) t
    | _, _ => .ok t
  (items.foldlM step .empty).map Tally.mean?

end CoEmbed
