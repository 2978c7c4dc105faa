import CoEmbed.Metric
import CoEmbed.VectorInit

/-!
# Configurations

A run is described by hyperparameters, each with a name and a value that is taken when none
is given. A configuration is checked as a whole before any data are looked at.

* `Hyperparameter` — the hyperparameters, by name.
* `Settings` — a value for each of them, as it was given.
* `Config` — settings that have been accepted, with the metric and the scheme they name.
* `Config.ofSettings` — accepts settings, or refuses the first that is out of its range.

## Checking convention

The checks are made in one fixed order, and a later one is not reached once an earlier one
has refused. Comparing a value that is not a number is a fault of type at the check that
needs it.
-/

namespace CoEmbed

/-- The **hyperparameters** of a run. -/
inductive Hyperparameter where
  | factor
  | unobserved
  | observed
  | ridgeTheta
  | ridgeBeta
  | ridgeGamma
  | globalBias
  | updateGlobalBias
  | useBias
  | initialisation
  | initialBound
  | initialStddev
  | iterations
  | checkConvergence
  | convergenceRate
  | metric
  | validationShare
  | negatives
  | shift
  | minUsers
  | seed
  deriving DecidableEq, Repr

namespace Hyperparameter

/-- All hyperparameters. -/
def all : List Hyperparameter :=
  [.factor, .unobserved, .observed, .ridgeTheta, .ridgeBeta, .ridgeGamma, .globalBias,
   .updateGlobalBias, .useBias, .initialisation, .initialBound, .initialStddev, .iterations,
   .checkConvergence, .convergenceRate, .metric, .validationShare, .negatives, .shift,
   .minUsers, .seed]

/-- The name under which a hyperparameter is given. -/
def name : Hyperparameter → String
  | .factor => "factor"
  | .unobserved => "c0"
  | .observed => "c1"
  | .ridgeTheta => "lambda_theta"
  | .ridgeBeta => "lambda_beta"
  | .ridgeGamma => "lambda_gamma"
  | .globalBias => "global_bias"
  | .updateGlobalBias => "update_global_bias"
  | .useBias => "use_bias"
  | .initialisation => "rank_init"
  | .initialBound => "max_init_value"
  | .initialStddev => "min_init_stddev"
  | .iterations => "max_iters"
  | .checkConvergence => "convergence_check"
  | .convergenceRate => "convergence_rate"
  | .metric => "validation_metric"
  | .validationShare => "validation_ratio"
  | .negatives => "num_valid_per_record"
  | .shift => "sppmi_shift"
  | .minUsers => "min_users"
  | .seed => "seed"

/-- The hyperparameter with a name. -/
def ofName? (s : String) : Option Hyperparameter := all.find? fun p => p.name = s

/-- A hyperparameter that is named by a text. -/
def isName (p : Hyperparameter) : Bool := p = .initialisation || p = .metric

/-- A hyperparameter that is a scalar, also where it is given as a whole number. -/
def isReal (p : Hyperparameter) : Bool :=
  p ∈ [.unobserved, .observed, .ridgeTheta, .ridgeBeta, .ridgeGamma, .globalBias,
    .initialBound, .initialStddev, .convergenceRate, .validationShare, .shift]

/-- Every hyperparameter is listed. -/
theorem mem_all (p : Hyperparameter) : p ∈ all := by cases p <;> decide

/-- A hyperparameter is found under its name. -/
@[simp] theorem ofName?_name (p : Hyperparameter) : ofName? p.name = some p := by
  cases p <;> decide

end Hyperparameter

/-- A value for **every hyperparameter**, as it was given. -/
abbrev Settings (α : Type) := Hyperparameter → Setting α

namespace Settings

variable {α : Type}

/-- The settings with one of them replaced. -/
def set (s : Settings α) (p : Hyperparameter) (v : Setting α) : Settings α :=
  fun q => if q = p then v else s q

/-- The settings with those replaced that a list names; a name that is not a
hyperparameter's is a fault of type. -/
def override (s : Settings α) (given : List (String × Setting α)) : Except Fault (Settings α) :=
  given.foldlM (fun s g => match Hyperparameter.ofName? g.1 with
    | some p => .ok (s.set p g.2)
    | none => .error .badType) s

variable [Numeral α]

/-- What is taken for the hyperparameters that are not given. -/
def standard : Settings α
  | .factor => .integer 10
  | .unobserved => .real (Scalar.ratio 1 10)
  | .observed => .real 1
  | .ridgeTheta => .real (Scalar.ratio 1 100000)
  | .ridgeBeta => .real (Scalar.ratio 1 100000)
  | .ridgeGamma => .real 1
  | .globalBias => .real 0
  | .updateGlobalBias => .flag false
  | .useBias => .flag true
  | .initialisation => .text "gaussian"
  | .initialBound => .real 1
  | .initialStddev => .real (Scalar.ratio 1 100)
  | .iterations => .integer 1
  | .checkConvergence => .flag true
  | .convergenceRate => .real (Scalar.ratio 5 1000)
  | .metric => .text "auc"
  | .validationShare => .real (Scalar.ratio 1 8)
  | .negatives => .integer 10
  | .shift => .real 1
  | .minUsers => .integer 1
  | .seed => .integer 31

/-- The least of the three ridges. -/
def leastRidge (s : Settings α) : Except Fault α := do
  return Scalar.min (Scalar.min (← (s .ridgeTheta).number) (← (s .ridgeBeta).number))
    (← (s .ridgeGamma).number)

/-- One of the two confidences is negative; the second is looked at if the first is not. -/
def negativeConfidence (s : Settings α) : Except Fault Bool := do
  if ← (s .unobserved).below 0 then return true else (s .observed).below 0

/-- The scheme of initial vectors that the settings name. The floor of its spread is one
over the number of factors. -/
def vectorInit (s : Settings α) : Except Fault (VectorInit α) := do
  let floor : α := 1 / (← (s .factor).scalar)
  VectorInit.ofName (s .initialisation) ⟨s .initialBound, s .initialStddev, .real floor⟩

end Settings

/-- Settings that have been **accepted**. -/
structure Config (α : Type) where
  settings : Settings α
  metric : Metric
  init : VectorInit α

namespace Config

variable {α : Type} [Numeral α]

/-- **Accepts settings**, or refuses the first that is out of its range. -/
def ofSettings (s : Settings α) : Except Fault (Config α) := do
  refuseIf (← (s .factor).atMost 0) (.factor (s .factor).shown)
  refuseIf (← (s .iterations).below 1) (.iterations (s .iterations).shown)
  refuseIf (!(← (s .validationShare).isShare)) .validationShare
  refuseIf ((s .updateGlobalBias).holds && !(s .useBias).holds) .globalBiasWithoutBiases
  refuseIf (← s.negativeConfidence) .confidences
  refuseIf (Scalar.lt (← s.leastRidge) 0) .ridges
  refuseIf (← (s .negatives).below 1) (.negatives (s .negatives).shown)
  refuseIf (← (s .shift).atMost 0) (.shift (s .shift).shown)
  let metric ← Metric.ofSetting (s .metric)
  return ⟨s.set .metric (.text metric.name), metric, ← s.vectorInit⟩

/-- The configuration that a list of named values describes. -/
def ofNamed (given : List (String × Setting α)) : Except Fault (Config α) := do
  ofSettings (← Settings.standard.override given)

/-- A configuration with some values replaced; it is checked again. -/
def override (c : Config α) (given : List (String × Setting α)) : Except Fault (Config α) := do
  if given.isEmpty then return c else ofSettings (← c.settings.override given)

end Config

end CoEmbed
