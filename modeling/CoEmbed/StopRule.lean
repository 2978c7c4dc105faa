import CoEmbed.Setting

/-!
# When to Stop

Training goes on until the loss of a sweep is hardly lower than that of the sweep before.

* `StopRule` — whether to look, and the relative decrease that is still worth a sweep.
* `Progress` — the losses of the sweep under way and of the one before, and the averages of
  all sweeps that have been judged.
* `Progress.next`, `Progress.report`, `Progress.judge` — a new sweep, a loss, the verdict.
* `Progress.average`, `Progress.averageOver` — the average loss of the sweep under way.

## Comparison convention

The losses of two sweeps are compared as sums. Before the second sweep there is nothing to
compare with, a sum that is not finite is nothing to compare with either, and a loss that
has grown never stops the run.
-/

namespace CoEmbed

/-- Whether the run may **stop early**, and below which relative decrease. -/
structure StopRule (α : Type) where
  check : Bool
  rate : α

/-- The **losses** of a run: the sum over the sweep under way, the sum over the sweep before
it, the number of sweeps, and the averages of the sweeps judged so far. -/
structure Progress (α : Type) where
  current : α
  previous : Option α
  iteration : Nat
  history : List α

variable {α : Type}

/-- The rule that two options give. -/
def StopRule.ofSettings [Numeral α] (check rate : Setting α) : Except Fault (StopRule α) := do
  refuseIf (← rate.below 0) (.rate rate.shown)
  return ⟨check.holds, ← rate.number⟩

namespace Progress

section

variable [Scalar α]

/-- Nothing has been swept. -/
def start : Progress α := ⟨0, none, 0, []⟩

/-- A **new sweep** begins. -/
def next (p : Progress α) : Progress α where
  current := 0
  previous := if p.iteration = 0 then p.previous else some p.current
  iteration := p.iteration + 1
  history := p.history

/-- A finite loss is added to the sweep under way; any other is a fault. -/
def report (p : Progress α) (loss : α) : Except Fault (Progress α) :=
  match Scalar.exceptional? loss with
  | some v => .error (.loss (.sweep p.iteration v))
  | none => .ok { p with current := p.current + loss }

/-- The average loss over a number of instances, or the sum if the number is not positive. -/
def average (p : Progress α) (instances : Int) : α :=
  if instances ≤ 0 then p.current else p.current / Scalar.ofInt instances

/-- Whether the sweep under way is **the last one** under a rule. -/
def settled (p : Progress α) (rule : StopRule α) : Bool :=
  match p.previous with
  | none => false
  | some previous =>
    if !rule.check || p.iteration ≤ 1 || !Scalar.finite previous then false
    else if Scalar.lt previous p.current then false
    else if Scalar.eq previous 0 then true
    else Scalar.lt ((previous - p.current) / previous) rule.rate

/-- Records an average of the sweep under way and **judges** the sweep. -/
def record (p : Progress α) (rule : StopRule α) (average : α) : Progress α × Bool :=
  ({ p with history := p.history ++ [average] }, p.settled rule)

/-- Records the average over a number of instances and judges the sweep. -/
def judge (p : Progress α) (rule : StopRule α) (instances : Int) : Progress α × Bool :=
  p.record rule (p.average instances)

end

variable [Numeral α]

/-- The average loss over a number of instances **as it was given**. -/
def averageOver (p : Progress α) (instances : Setting α) : Except Fault α := do
  if Scalar.le (← instances.number) 0 then return p.current
  else return p.current / (← instances.operand)

end Progress

end CoEmbed
