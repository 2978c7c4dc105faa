import CoEmbed.Config
import CoEmbed.Counters
import CoEmbed.Outcome
import CoEmbed.Update

/-!
# The Model

A model holds a vector for every registered user, two vectors and two biases for every
registered item, and the bias that all pairs share.

* `Hyper` — the hyperparameters that the updates and the losses use.
* `Model` — the parameters, with what registration and sampling need.
* `Model.ofSettings` — the empty model of some settings.
* `Model.registerUsers`, `Model.registerHistories`, `Model.registerItems` — new keys get
  initial vectors.
* `Model.predict` — the inner product of a user's and an item's vector.

## Registration convention

A key is registered once: registering it again changes nothing. The vectors of the new items
are drawn first, and then the vectors that the same items have as neighbours.
-/

namespace CoEmbed

/-- The **hyperparameters of a model** with the conversions made. -/
structure Hyper (α : Type) where
  unobserved : α
  observed : α
  ridgeTheta : α
  ridgeBeta : α
  ridgeGamma : α
  init : VectorInit α
  metric : Metric
  negatives : Int
  useBias : Bool
  updateGlobalBias : Bool

/-- The **parameters** of a model with `n` factors, the items of each user as they were last
recorded, the counters, and the source of its draws. -/
structure Model (α : Type) (n : Nat) where
  hyper : Hyper α
  theta : Factors α n
  beta : Factors α n
  gamma : Factors α n
  betaBias : Table Key (Bias α)
  gammaBias : Table Key (Bias α)
  globalBias : α
  histories : Table Key (List Key)
  counters : Counters
  source : Source

namespace Model

variable {α : Type} {n : Nat}

/-- The model without parameters. -/
def empty (hyper : Hyper α) (globalBias : α) (source : Source) : Model α n where
  hyper := hyper
  theta := Table.empty
  beta := Table.empty
  gamma := Table.empty
  betaBias := Table.empty
  gammaBias := Table.empty
  globalBias := globalBias
  histories := Table.empty
  counters := Table.empty
  source := source

/-- The biases that the updates see: none if the model does without. -/
def seenBetaBias (m : Model α n) : Option (Table Key (Bias α)) :=
  if m.hyper.useBias then some m.betaBias else none

/-- The neighbours' biases that the updates see: none if the model does without. -/
def seenGammaBias (m : Model α n) : Option (Table Key (Bias α)) :=
  if m.hyper.useBias then some m.gammaBias else none

/-- Counts, if the model has a counter for it. -/
def count (m : Model α n) (what : Counted) (by_ : Nat) : Model α n :=
  { m with counters := m.counters.add what by_ }

/-- The model with fresh counters. -/
def withCounters (m : Model α n) (c : Counters) : Model α n := { m with counters := c }

section

variable [Numeral α]

/-- A number of factors has to be there and positive. -/
def factorCount (s : Setting α) : Except Fault Nat := do
  match s with
  | .absent => throw (.refused (.modelFactor s.shown))
  | _ =>
    let n ← s.whole
    refuseIf (decide (n ≤ 0)) (.modelFactor s.shown)
    return n.toNat

/-- Sampling for the rank metric needs at least one negative. -/
def tooFewNegatives (metric : Metric) (s : Setting α) : Except Fault Bool :=
  match metric with
  | .auc => s.below 1
  | .objective => .ok false

/-- The scheme of a model without one of its own: initial vectors **around zero**, with a
spread of at least one over the number of factors. -/
def initFor (n : Nat) : Except Fault (VectorInit α) :=
  if Scalar.finite (Scalar.ofNat n : α) then
    .ok ⟨.gaussian, 1, Scalar.ratio 1 100, Scalar.ratio 1 n⟩
  else .error .overflow

/-- The **empty model of some settings**. -/
def ofSettings (s : Settings α) (init : Option (VectorInit α)) (source : Source) :
    Except Fault ((n : Nat) × Model α n) := do
  let n ← factorCount (s .factor)
  refuseIf (← s.negativeConfidence)
    (.modelConfidences (s .unobserved).shown (s .observed).shown)
  refuseIf (Scalar.lt (← s.leastRidge) 0) .ridges
  refuseIf ((s .updateGlobalBias).holds && !(s .useBias).holds) .modelGlobalBias
  let metric ← Metric.ofSetting (s .metric)
  refuseIf (← tooFewNegatives metric (s .negatives)) (.modelNegatives (s .negatives).shown)
  let init ← match init with
    | some init => pure init
    | none => initFor n
  let c₀ ← (s .unobserved).scalar
  let c₁ ← (s .observed).scalar
  let ridgeTheta ← (s .ridgeTheta).scalar
  let ridgeBeta ← (s .ridgeBeta).scalar
  let ridgeGamma ← (s .ridgeGamma).scalar
  let globalBias ← (s .globalBias).scalar
  let negatives ← (s .negatives).whole
  let hyper : Hyper α :=
    ⟨c₀, c₁, ridgeTheta, ridgeBeta, ridgeGamma, init, metric, negatives, (s .useBias).holds,
     (s .updateGlobalBias).holds⟩
  return ⟨n, empty hyper globalBias source⟩

/-- The hyperparameters that a model takes by name; the number of factors has to be
given. -/
def takes (name : String) : Bool :=
  match Hyperparameter.ofName? name with
  | some .factor | some .unobserved | some .observed | some .ridgeTheta | some .ridgeBeta
  | some .ridgeGamma | some .globalBias | some .metric | some .negatives | some .useBias
  | some .updateGlobalBias => true
  | _ => false

/-- The empty model that a list of named values describes. -/
def ofNamed (given : List (String × Setting α)) (init : Option (VectorInit α))
    (source : Source) : Except Fault ((n : Nat) × Model α n) := do
  if given.all (fun g => takes g.1) && given.any (fun g => g.1 = Hyperparameter.factor.name) then
    ofSettings (← Settings.standard.override given) init source
  else throw .badType

end

variable [Machine] [Scalar α]

/-- Draws a vector for every **new key** of a table. -/
def drawn (init : VectorInit α) (W : Factors α n) (ks : List Key) (s : Source) :
    Factors α n × Source :=
  W.register (init.draw n) ks s

/-- Every key has a vector already, or vectors can be drawn. -/
def canRegister (m : Model α n) (W : Factors α n) (ks : List Key) : Bool :=
  m.hyper.init.drawable || ks.all fun k => decide (k ∈ W)

/-- **Registers users**: each new one gets a vector. -/
def registerUsers (m : Model α n) (ks : List Key) : Outcome (Model α n) :=
  if m.canRegister m.theta ks then
    let r := drawn m.hyper.init m.theta ks m.source
    .done ({ m with theta := r.1, source := r.2 }.count .users (r.1.size - m.theta.size))
  else .failed m .overflow

/-- Registers users and **records the items** that each of them has. -/
def registerHistories (m : Model α n) (t : Table Key (List Key)) : Outcome (Model α n) :=
  let histories := t.entries.foldl (fun h e => h.insert e.1 e.2) m.histories
  { m with histories := histories }.registerUsers t.keys

/-- A bias of zero for every new key. -/
def zeroBiases (t : Table Key (Bias α)) (ks : List Key) : Table Key (Bias α) :=
  ((Biases.mk (.real 0) t).register ks).values

/-- **Registers items**: each new one gets a vector, a vector as a neighbour, and two biases
of zero. -/
def registerItems (m : Model α n) (ks : List Key) : Outcome (Model α n) :=
  if m.canRegister m.beta ks && m.canRegister m.gamma ks then
    let b := drawn m.hyper.init m.beta ks m.source
    let g := drawn m.hyper.init m.gamma ks b.2
    let m' : Model α n :=
      { m with
        beta := b.1
        gamma := g.1
        betaBias := zeroBiases m.betaBias ks
        gammaBias := zeroBiases m.gammaBias ks
        source := g.2 }
    .done (m'.count .items (b.1.size - m.beta.size))
  else .failed m .overflow

/-- The **score** of a pair, if both sides are registered. -/
def predict (m : Model α n) (user item : Key) : Option α :=
  match m.theta.get? user, m.beta.get? item with
  | some u, some v => some (Vec.dot u v)
  | _, _ => none

end Model

end CoEmbed
