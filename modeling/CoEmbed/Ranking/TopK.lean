import CoEmbed.Distinct
import CoEmbed.Fault
import CoEmbed.Table

/-!
# Metrics at a Cut-Off

A list of recommended keys is compared with the keys that were held out, as far as a cut-off
rank.

* `upTo` — the part of a ranking up to the cut-off.
* `hits` — the number of held-out keys in that part.
* `precisionAt`, `recallAt`, `hitAt`, `ndcgAt` — the four metrics.
* `TopK` — their means over several users; `evaluateTopK` computes them.

## Cut-off convention

A negative cut-off leaves off that many keys at the end of the ranking. Repeated keys count
once among the hits, and each of their ranks counts in the gain.

## Holder convention

What is held out is a list of entries, each with its user. A user with two entries is asked
for twice.
-/

namespace CoEmbed

/-- The part of a ranking **up to the cut-off**. -/
def upTo {β : Type} (k : Int) (xs : List β) : List β :=
  if 0 ≤ k then xs.take k.toNat else xs.take (xs.length - k.natAbs)

/-- The number of different held-out keys **up to the cut-off**. -/
def hits (recommended heldOut : List Key) (k : Int) : Nat :=
  (distinct (upTo k recommended)).countP fun x => decide (x ∈ heldOut)

variable {α : Type} [Scalar α]

/-- The share of the cut-off that is taken by held-out keys. -/
def precisionAt (recommended heldOut : List Key) (k : Int) : α :=
  if (upTo k recommended).isEmpty then 0
  else Scalar.quotient (hits recommended heldOut k) k

/-- The share of the held-out keys that are found. -/
def recallAt (recommended heldOut : List Key) (k : Int) : α :=
  if heldOut.isEmpty then 0
  else Scalar.quotient (hits recommended heldOut k) heldOut.length

/-- One if a held-out key is found, zero if not. -/
def hitAt (recommended heldOut : List Key) (k : Int) : Nat :=
  if (upTo k recommended).any fun x => decide (x ∈ heldOut) then 1 else 0

/-- What a hit at a rank, counted from zero, is worth. -/
def discount (rank : Nat) : α := 1 / Scalar.log2 (Scalar.ofNat (rank + 2))

/-- What the held-out keys of a ranking are worth, the first of them at a given rank. -/
def gainFrom (heldOut : List Key) : Nat → List Key → List α
  | _, [] => []
  | rank, x :: xs =>
    if x ∈ heldOut then discount rank :: gainFrom heldOut (rank + 1) xs
    else gainFrom heldOut (rank + 1) xs

/-- The gain of a ranking that opens with all of `count` held-out keys. -/
def idealGain (count : Nat) : α := Scalar.total ((List.range count).map discount)

/-- The gain of a ranking **relative to the best one**. -/
def ndcgAt (recommended heldOut : List Key) (k : Int) : α :=
  let ideal : α := idealGain (min (distinct heldOut).length k.toNat)
  if Scalar.eq ideal 0 then 0
  else Scalar.total (gainFrom heldOut 0 (upTo k recommended)) / ideal

/-- The **means** of the four metrics over a number of users. -/
structure TopK (α : Type) where
  meanPrecision : α
  meanRecall : α
  meanHit : α
  meanNdcg : α
  users : Nat

/-- Every metric's total over no users. -/
def TopK.none : TopK α := ⟨0, 0, 0, 0, 0⟩

/-- The totals with one more user. -/
def TopK.add (t : TopK α) (recommended heldOut : List Key) (k : Int) : TopK α where
  meanPrecision := t.meanPrecision + precisionAt recommended heldOut k
  meanRecall := t.meanRecall + recallAt recommended heldOut k
  meanHit := t.meanHit + Scalar.ofNat (hitAt recommended heldOut k)
  meanNdcg := t.meanNdcg + ndcgAt recommended heldOut k
  users := t.users + 1

/-- The means of the totals; zero if there are no users. -/
def TopK.mean (t : TopK α) : TopK α :=
  let share (x : α) : α := if t.users = 0 then 0 else x / Scalar.ofNat t.users
  ⟨share t.meanPrecision, share t.meanRecall, share t.meanHit, share t.meanNdcg, t.users⟩

/-- What a recommender is asked in an evaluation. -/
structure Query where
  user : Key
  history : List Key
  count : Int
  deriving DecidableEq, Repr

/-- The **queries** of an evaluation: one for each entry with held-out keys. -/
def queries (histories : Table Key (List Key)) (heldOut : List (Key × List Key)) (k : Int) :
    List (Query × List Key) :=
  (heldOut.filter fun e => !e.2.isEmpty).map fun e =>
    (⟨e.1, (histories.get? e.1).getD [], k⟩, e.2)

/-- The mean metrics of a recommender over the users with held-out keys. -/
def evaluateTopK (recommend : Query → Except Fault (List Key))
    (histories : Table Key (List Key)) (heldOut : List (Key × List Key)) (k : Int) :
    Except Fault (TopK α) :=
  let step (t : TopK α) (q : Query × List Key) : Except Fault (TopK α) :=
    (recommend q.1).map fun recommended => t.add recommended q.2 k
  ((queries histories heldOut k).foldlM step TopK.none).map TopK.mean

end CoEmbed
