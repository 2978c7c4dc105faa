import CoEmbed.Distinct
import CoEmbed.Machine

/-!
# Negative Samples

A probe is a list that opens with some positive keys and goes on with placeholders, which
are filled with keys that are not among the positives.

* `candidates` — the keys that may be drawn.
* `drawNegatives` — some of them, drawn at random.
* `sampleNegatives` — the probe with its placeholders filled, and the source after it.

## Length convention

Placeholders are filled from the front. If there are fewer candidates than placeholders,
the rest of the placeholders is removed; if there are fewer placeholders than were asked
for, the probe grows.
-/

namespace CoEmbed

/-- The place that an index counts from the front, or from the end if it is negative, kept
within the list. -/
def placeOf (i : Int) (length : Nat) : Nat :=
  if 0 ≤ i then min i.toNat length else length - i.natAbs

variable {κ : Type} [DecidableEq κ]

/-- The distinct known keys that are **not among the positives**. -/
def candidates (positives known : List κ) : List κ :=
  (distinct known).filter fun k => decide (k ∉ positives)

/-- The number of keys to draw, which must not be negative. -/
def drawCount (asked : Int) (available : Nat) : Except Fault Nat :=
  if asked < 0 then .error .badValue else .ok (min asked.toNat available)

variable [Machine]

/-- **Draws** distinct candidates, as many as are asked for or as there are. -/
def drawNegatives (negatives : Int) (positives known : List κ) (s : Source) :
    Except Fault (List κ × Source) := do
  let pool := candidates positives known
  let count ← drawCount negatives pool.length
  return drawBy Machine.choose count pool s

/-- **Fills the placeholders** of a probe with distinct candidates. -/
def sampleNegatives (positives negatives : Int) (probe known : List κ) (s : Source) :
    Except Fault (List κ × Source) := do
  let head := probe.take (placeOf positives probe.length)
  let (drawn, s) ← drawNegatives negatives head known s
  let start := placeOf positives probe.length
  let stop := placeOf (positives + negatives) probe.length
  return (head ++ drawn ++ probe.drop (max start stop), s)

end CoEmbed
