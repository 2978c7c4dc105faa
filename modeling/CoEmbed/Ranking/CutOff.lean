import CoEmbed.Ranking.TopK
import CoEmbed.Setting

/-!
# Cut-Offs as They Are Given

A cut-off rank that comes from outside may be left out, or may be no rank at all.

* `CutOff` — what a setting says about the rank.
* `CutOff.precisionOf`, `CutOff.recallOf`, `CutOff.hitOf`, `CutOff.ndcgOf` — the metrics at
  a cut-off as it was given.
* `CutOff.evaluate` — their means over several users.

## Open convention

Without a cut-off a ranking counts in full, but a metric that is a share of the cut-off, or
compares the ranking with the best one up to it, has no value then. The means over no users
are zero at any cut-off.
-/

namespace CoEmbed

/-- What a setting says about the **cut-off rank**. -/
inductive CutOff where
  | rank (k : Int)
  | none
  | unusable
  deriving DecidableEq, Repr

namespace CutOff

/-- The cut-off that a setting gives. -/
def ofSetting {α : Type} : Setting α → CutOff
  | .integer k => rank k
  | .flag b => rank (if b then 1 else 0)
  | .absent => none
  | .real _ | .text _ => unusable

variable {α : Type} [Scalar α]

/-- The share of the cut-off that is taken by held-out keys; an empty ranking takes none of
any cut-off. -/
def precisionOf (c : CutOff) (recommended heldOut : List Key) : Except Fault α :=
  match c with
  | rank k => .ok (precisionAt recommended heldOut k)
  | none => if recommended.isEmpty then .ok 0 else .error .badType
  | unusable => .error .badType

/-- The share of the held-out keys that are found. -/
def recallOf (c : CutOff) (recommended heldOut : List Key) : Except Fault α :=
  match c with
  | rank k => .ok (recallAt recommended heldOut k)
  | none => .ok (recallAt recommended heldOut recommended.length)
  | unusable => if heldOut.isEmpty then .ok 0 else .error .badType

/-- One if a held-out key is found, zero if not. -/
def hitOf (c : CutOff) (recommended heldOut : List Key) : Except Fault Nat :=
  match c with
  | rank k => .ok (hitAt recommended heldOut k)
  | none => .ok (hitAt recommended heldOut recommended.length)
  | unusable => .error .badType

/-- The gain of a ranking relative to the best one. -/
def ndcgOf (c : CutOff) (recommended heldOut : List Key) : Except Fault α :=
  match c with
  | rank k => .ok (ndcgAt recommended heldOut k)
  | none | unusable => .error .badType

/-- The **mean metrics** of a recommender at a cut-off as it was given. -/
def evaluate (c : CutOff) (recommend : Query → Except Fault (List Key))
    (histories : Table Key (List Key)) (heldOut : List (Key × List Key)) :
    Except Fault (TopK α) :=
  match c with
  | rank k => evaluateTopK recommend histories heldOut k
  | none | unusable => match queries histories heldOut 0 with
    | [] => .ok TopK.none.mean
    | q :: _ => do
      let _ ← recommend q.1
      throw .badType

end CutOff

end CoEmbed
