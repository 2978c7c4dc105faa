import CoEmbed.Model.Basic
import CoEmbed.Negatives
import CoEmbed.Objective
import CoEmbed.Ranking.Auc

/-!
# Validation

A held-out pair is scored, and its score is compared with what it ought to be or with the
scores of sampled items.

* `Model.validate` — the validation loss of a pair, and the source after it.
* `Model.negativesFor` — the items that the pair is compared with.
* `roomFor` — memory has room for a probe with a number of items.

## Sampling convention

Only registered items are sampled that are not in the history recorded for the user; the
item itself is not sampled either. Nothing but the source changes.

## Room convention

The number of items to be sampled is asked for whether or not there are so many. A number
that the memory of the machine does not hold is refused, and one that is no length at all is an
overflow.
-/

namespace CoEmbed

/-- There is **room for a probe** of so many items. -/
def roomFor [Machine] (negatives : Int) : Except Fault Unit :=
  if (twoTo 63 : Int) ≤ negatives then .error .overflow
  else if Machine.holds negatives.toNat then .ok ()
  else .error .noMemory

end CoEmbed

namespace CoEmbed.Model

variable [Machine] {α : Type} [Scalar α] {n : Nat}

/-- The registered items outside the **history** of a user. -/
def unseen (m : Model α n) (user : Key) : List Key :=
  let rated := (m.histories.get? user).getD []
  m.beta.keys.filter fun k => decide (k ∉ rated)

/-- The **items that a pair is compared with**, and the source after they have been
drawn. -/
def negativesFor (m : Model α n) (user item : Key) : Except Fault (List Key × Source) := do
  roomFor m.hyper.negatives
  drawNegatives m.hyper.negatives [item] (m.unseen user) m.source

/-- The scores of some items for a user. -/
def scores (m : Model α n) (user : Vec α n) (items : List Key) : List α :=
  items.filterMap fun i => (m.beta.get? i).map (Vec.dot user)

/-- A loss that has to be finite. -/
def finiteLoss (user item : Key) (loss : α) : Except Fault (Option α) :=
  if Scalar.finite loss then .ok (some loss) else .error (.loss (.validation user item))

/-- The squared error of a score that ought to be one, with the confidence of an observed
pair. -/
def errorLoss (m : Model α n) (user item : Key) (score : α) : Except Fault (Option α) := do
  finiteLoss user item (m.hyper.observed * (← squared (1 - score)))

/-- The share of the sampled items that come out **above** the item, ties counting half. -/
def rankLoss (m : Model α n) (user item : Key) (score : α) (vector : Vec α n)
    (negatives : List Key) : Except Fault (Option α) :=
  let others := m.scores vector negatives
  if !others.all Scalar.finite then .error (.loss (.negativeScores user))
  else match auc [score] others with
    | none => .ok none
    | some a => finiteLoss user item (1 - a)

/-- The **validation loss** of a pair; there is none if the pair cannot be scored, or has
nothing to be compared with. -/
def validate (m : Model α n) (user item : Key) : Except Fault (Option α) × Source :=
  match m.theta.get? user, m.beta.get? item with
  | some u, some v =>
    let score := Vec.dot u v
    match Scalar.exceptional? score with
    | some e => (.error (.loss (.score user item e)), m.source)
    | none => match m.hyper.metric with
      | .objective => (m.errorLoss user item score, m.source)
      | .auc => match m.negativesFor user item with
        | .error f => (.error f, m.source)
        | .ok (negatives, source) => (m.rankLoss user item score u negatives, source)
  | _, _ => (.ok none, m.source)

end CoEmbed.Model
