import CoEmbed.Archive.Code
import CoEmbed.Recommender

/-!
# Recommenders on File

What a fitted recommender consists of, written as numbers.

* instances of `Coded`, from keys and settings up to `Recommender`.
* `Recommender.fileText`, `Recommender.ofFileText?` — the text of a recommender's file, and
  the recommender of such a text.

## Configuration convention

Of a configuration only the settings are written. They are accepted anew when they are read,
so a file whose settings are out of their range holds no recommender.
-/

namespace CoEmbed

open Coded

instance : Coded Key where
  code
    | .missing => [0]
    | .number n => 1 :: code n
    | .decimal t => 2 :: code t
    | .flag b => 3 :: code b
    | .text s => 4 :: code s
  decode := do
    match ← decode (β := Nat) with
    | 0 => return .missing
    | 1 => return .number (← decode (β := Int))
    | 2 => return .decimal (← decode (β := String))
    | 3 => return .flag (← decode (β := Bool))
    | _ => return .text (← decode (β := String))

instance : Coded Source where
  code s := code (s.seed, s.position)
  decode := do
    let p ← decode (β := UInt64 × Nat)
    return ⟨p.1, p.2⟩

instance : Coded Metric where
  code m := code (decide (m = .auc))
  decode := do return if ← decode (β := Bool) then .auc else .objective

instance : Coded VectorInit.Kind where
  code k := code (decide (k = .random))
  decode := do return if ← decode (β := Bool) then .random else .gaussian

section

variable {α : Type} [Coded α]

instance : Coded (Setting α) where
  code
    | .absent => [0]
    | .flag b => 1 :: code b
    | .integer n => 2 :: code n
    | .real x => 3 :: code x
    | .text s => 4 :: code s
  decode := do
    match ← decode (β := Nat) with
    | 0 => return .absent
    | 1 => return .flag (← decode (β := Bool))
    | 2 => return .integer (← decode (β := Int))
    | 3 => return .real (← decode (β := α))
    | _ => return .text (← decode (β := String))

instance : Coded (Bias α) where
  code
    | .whole n => 0 :: code n
    | .real x => 1 :: code x
  decode := do
    match ← decode (β := Nat) with
    | 0 => return .whole (← decode (β := Int))
    | _ => return .real (← decode (β := α))

instance : Coded (VectorInit α) where
  code i := code (i.kind, i.bound, i.stddev, i.floor)
  decode := do
    let (kind, bound, stddev, floor) ← decode (β := VectorInit.Kind × α × α × α)
    return ⟨kind, bound, stddev, floor⟩

instance : Coded (Hyper α) where
  code h :=
    code [h.unobserved, h.observed, h.ridgeTheta, h.ridgeBeta, h.ridgeGamma]
      ++ code (h.init, h.metric, h.negatives, h.useBias, h.updateGlobalBias)
  decode := do
    match ← decode (β := List α) with
    | [unobserved, observed, ridgeTheta, ridgeBeta, ridgeGamma] =>
      let (init, metric, negatives, useBias, updateGlobalBias) ←
        decode (β := VectorInit α × Metric × Int × Bool × Bool)
      return ⟨unobserved, observed, ridgeTheta, ridgeBeta, ridgeGamma, init, metric, negatives,
        useBias, updateGlobalBias⟩
    | _ => refuse

instance {n : Nat} : Coded (Model α n) where
  code m :=
    code m.hyper ++ code m.theta ++ code m.beta ++ code m.gamma ++ code m.betaBias
      ++ code m.gammaBias ++ code m.globalBias ++ code m.histories ++ code m.counters
      ++ code m.source
  decode := do
    let hyper ← decode (β := Hyper α)
    let theta ← decode (β := Factors α n)
    let beta ← decode (β := Factors α n)
    let gamma ← decode (β := Factors α n)
    let betaBias ← decode (β := Table Key (Bias α))
    let gammaBias ← decode (β := Table Key (Bias α))
    let globalBias ← decode (β := α)
    let histories ← decode (β := Table Key (List Key))
    let counters ← decode (β := Counters)
    let source ← decode (β := Source)
    return ⟨hyper, theta, beta, gamma, betaBias, gammaBias, globalBias, histories, counters,
      source⟩

instance : Coded (Fitted α) where
  code f := f.factor :: (code f.model ++ code f.history)
  decode := do
    let factor ← decode (β := Nat)
    let model ← decode (β := Model α factor)
    return ⟨factor, model, ← decode (β := List α)⟩

variable [Numeral α]

instance : Coded (Config α) where
  code c := code (Hyperparameter.all.map c.settings)
  decode := do
    let values ← decode (β := List (Setting α))
    let settings : Settings α := (Hyperparameter.all.zip values).foldl
      (fun s e => s.set e.1 e.2) Settings.standard
    match Config.ofSettings settings with
    | .ok c => return c
    | .error _ => refuse

instance : Coded (Recommender α) where
  code r := code r.config ++ code r.fitted ++ code r.counters ++ code r.iterations
  decode := do
    let config ← decode (β := Config α)
    let fitted ← decode (β := Option (Fitted α))
    let counters ← decode (β := Counters)
    return ⟨config, fitted, counters, ← decode (β := Nat)⟩

end

/-- The **text of a recommender's file**. -/
def Recommender.fileText (r : Recommender Float) : String := codeText (code r)

/-- The **recommender of a file's text**, which has to be used up. -/
def Recommender.ofFileText? (s : String) : Option (Recommender Float) := do
  match decode (β := Recommender Float) (← codeOfText? s) with
  | some (r, []) => some r
  | _ => none

end CoEmbed
