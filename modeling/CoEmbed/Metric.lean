import CoEmbed.Setting

/-!
# Validation Metrics

How well a held-out pair is predicted: by its rank among sampled pairs, or by its error.

* `Metric` — the two metrics.
* `Metric.ofSetting` — the metric that an option names.
-/

namespace CoEmbed

/-- The two **validation metrics**. -/
inductive Metric where
  | auc
  | objective
  deriving DecidableEq, Repr

namespace Metric

/-- The proper name of a metric. -/
def name : Metric → String
  | .auc => "auc"
  | .objective => "objective"

/-- The metric with a name, in any case and with blanks around it. -/
def ofName? (s : String) : Option Metric :=
  match Text.lowerAscii (Text.trim s) with
  | "auc" => some .auc
  | "objective" | "loss" => some .objective
  | _ => none

/-- The **metric that an option names**. -/
def ofSetting {α : Type} [Numeral α] (s : Setting α) : Except Fault Metric :=
  match ofName? s.shown with
  | some m => .ok m
  | none => .error (.refused (.metric s.shown))

end Metric

end CoEmbed
