import CoEmbed.Model.Basic

/-!
# Sweeps

A sweep visits the rows of a table one after the other and puts the best values of the
parameters in place, each computed from what the rows before it have left.

* `Model.updateUsers` — the sweep over users.
* `Model.updateItems` — the sweep over items, with the global bias at its end.
* `Model.sweepUser`, `Model.sweepItem` — what happens at one row.

## Abort convention

A system without a solution ends the sweep, and so does a weight that cannot be read. Rows
before it keep what they were given, rows after it are not touched, and what is counted or
written at the end of a sweep is left out. At an item, the vector is written before the
system of the vector as a neighbour is looked at.
-/

namespace CoEmbed.Model

variable {ρ α : Type} [Scalar α] [Operand ρ α] {n : Nat}

/-- Counts a row's keys, those that have a vector, and those that are skipped. -/
def countRow (m : Model α n) (total trainable skipped : Counted) (ks : List Key)
    (W : Factors α n) : Model α n :=
  let found := (ks.filter fun k => decide (k ∈ W)).length
  ((m.count total ks.length).count trainable found).count skipped (ks.length - found)

/-- The row of a **user**: a registered user gets the best vector for the listed items. -/
def sweepUser (background : Mat α n n) (m : Model α n) (row : Key × List Key) :
    Outcome (Model α n) :=
  if row.1 ∈ m.theta then
    let m := m.countRow .thetaTotal .thetaTrainable .skippedItems row.2 m.beta
    match newTheta row.2 m.beta background m.hyper.unobserved m.hyper.observed with
    | .ok v => .done { m with theta := m.theta.insert row.1 v }
    | .error f => .failed m f
  else .done m

/-- The keys of a table that are not registered in another one. -/
def strangers {ν : Type} (t : Table Key ν) (W : Factors α n) : Nat :=
  (t.keys.filter fun k => decide (k ∉ W)).length

/-- The **sweep over users**, the vectors of the items being fixed. -/
def updateUsers (m : Model α n) (userItems : Table Key (List Key)) : Outcome (Model α n) :=
  let background := m.beta.background m.hyper.unobserved m.hyper.ridgeTheta
  (Outcome.each (sweepUser background) m userItems.entries).bind fun m =>
    .done (m.count .skippedUsers (strangers userItems m.theta))

/-- Puts the best **bias** of an item in place, and then the best bias of the item as a
neighbour; where there is nothing to fit, the bias stays. -/
def updateBiases (m : Model α n) (item : Key) (row : Row ρ) : Outcome (Model α n) :=
  match newBias item row m.beta m.gamma (some m.gammaBias) m.globalBias with
  | .error f => .failed m f
  | .ok b =>
    let m := match b with
      | some b => { m with betaBias := m.betaBias.insert item (.real b) }
      | none => m
    match newBias item row m.gamma m.beta (some m.betaBias) m.globalBias with
    | .error f => .failed m f
    | .ok c => .done (match c with
      | some c => { m with gammaBias := m.gammaBias.insert item (.real c) }
      | none => m)

/-- Puts the best **vector of an item as a neighbour** in place, if it has neighbours. -/
def updateGamma (m : Model α n) (item : Key) (row : Row ρ) : Outcome (Model α n) :=
  match newGamma item row m.beta m.seenBetaBias m.seenGammaBias m.hyper.ridgeGamma
      m.globalBias with
  | .error f => .failed m f
  | .ok (some v) => .done { m with gamma := m.gamma.insert item v }
  | .ok none => .done m

/-- Puts the best **vector of an item** in place. -/
def updateBeta (background : Mat α n n) (m : Model α n) (item : Key) (raters : List Key)
    (row : Row ρ) : Outcome (Model α n) :=
  match newBeta item raters row m.theta m.gamma m.seenBetaBias m.seenGammaBias background
      m.hyper.unobserved m.hyper.observed m.globalBias with
  | .error f => .failed m f
  | .ok v => .done { m with beta := m.beta.insert item v }

/-- The row of an **item**: a registered item gets its vectors, and its biases if the model
has any. -/
def sweepItem (background : Mat α n n) (rows : Table Key (Row ρ)) (m : Model α n)
    (row : Key × List Key) : Outcome (Model α n) :=
  if row.1 ∈ m.beta then
    let neighbors := (rows.get? row.1).getD []
    let m := m.countRow .betaTotal .betaTrainable .skippedUsers row.2 m.theta
    let m := m.count .skippedItems (neighbors.filter fun e => decide (e.1 ∉ m.gamma)).length
    ((updateBeta background m row.1 row.2 neighbors).bind fun m =>
      updateGamma m row.1 neighbors).bind fun m =>
        if m.hyper.useBias then updateBiases m row.1 neighbors else .done m
  else .done m

/-- Puts the best **global bias** in place, if the model learns it and there is anything to
fit. -/
def updateGlobal (m : Model α n) (items : List Key) (rows : Table Key (Row ρ)) :
    Outcome (Model α n) :=
  if m.hyper.updateGlobalBias then
    match newGlobalBias items rows m.beta m.gamma (some m.betaBias) (some m.gammaBias) with
    | .error f => .failed m f
    | .ok (some b) => .done { m with globalBias := b }
    | .ok none => .done m
  else .done m

/-- The **sweep over items**, the vectors of the users being fixed. -/
def updateItems (m : Model α n) (itemUsers : Table Key (List Key)) (rows : Table Key (Row ρ)) :
    Outcome (Model α n) :=
  let background := m.theta.background m.hyper.unobserved m.hyper.ridgeBeta
  ((Outcome.each (sweepItem background rows) m itemUsers.entries).bind fun m =>
    m.updateGlobal itemUsers.keys rows).bind fun m =>
      .done (m.count .skippedItems (strangers itemUsers m.beta))

end CoEmbed.Model
