import CoEmbed.Machine.Standard
import CoEmbed.Proofs.Exact.Order
import CoEmbed.Proofs.Faults
import CoEmbed.Proofs.Objective.Fit

/-!
# Refusals after Acceptance

A configuration is checked as a whole before any data are read. The parts of a fit check once more
what they take from it, and all of them but one accept whatever the configuration did: the rate
below which a decrease is not worth a sweep is checked by the stop rule alone, which is read when
the model has been registered.

* `Selection.check_of_accepted`, `avoids_sppmi`, `Model.avoids_ofSettings` — the checks that cannot
  refuse.
* `Recommender.schedule_eq_refused_iff` — the check that can.
* `Recommender.fitTables_of_refused` — what then becomes of a fit.
* `Config.Unrefused`, `refused_for_rate_alone` — all of this for every accepted configuration.

## Kind convention

The number of factors is given as a whole number. A fraction between zero and one is accepted as a
number of factors and refused by the model, which cuts it off.
-/

namespace CoEmbed

variable {ρ α : Type} {n : Nat} [Numeral α]

/-! ### Checks that cannot refuse -/

/-- After a check that **does not refuse** it is the rest that matters. -/
theorem Avoids.of_unrefused {β : Type} {k : Fault.Kind} {c : Bool} {r : Refusal}
    {f : Unit → Except Fault β} (hc : c = false) (hf : Avoids k (f ())) :
    Avoids k (refuseIf c r >>= f) := by
  subst hc
  exact hf

/-- The **share** that is held out is checked twice in the same way. -/
theorem Selection.check_of_accepted {s : Settings α} {c : Config α} (h : s.Accepted c)
    (cutoff userColumn itemColumn timeColumn : Setting α) :
    (Recommender.selection c cutoff userColumn itemColumn timeColumn).check = .ok () := by
  have hshare : (c.settings .validationShare).isShare = .ok true := by
    rw [h.settings_of_ne (by decide)]
    exact h.share
  exact bind_eq_ok_iff.2 ⟨true, hshare, rfl⟩

/-- A **shift** that is not at most zero is not refused with the weights. -/
theorem avoids_sppmi {m n : Nat} {shift : Setting α} (h : shift.atMost 0 = .ok false)
    (C : Mat α m n) : Avoids .configuration (sppmi C shift) := by
  refine .of_ok h (.of_unrefused rfl ?_)
  split
  · exact avoids_ok _
  · split
    · exact (Setting.avoids_measured rfl shift).bind fun _ _ => avoids_ok _
    · exact avoids_error (by decide)

/-- A positive **number of factors** is not refused. -/
theorem avoids_factorCount {k : Fault.Kind} {j : Int} (hj : 0 < j) :
    Avoids k (Model.factorCount (.integer (α := α) j)) := by
  exact .of_ok rfl (.of_unrefused (decide_eq_false (not_le.2 hj)) (avoids_ok _))

/-- Settings that are accepted **have a model**, unless one of their values cannot be converted. -/
theorem Model.avoids_ofSettings [Numeral.Ordered α] {s : Settings α} {c : Config α}
    (h : s.Accepted c) {j : Int} (hj : s .factor = .integer j) (source : Source) :
    Avoids .configuration (Model.ofSettings c.settings (some c.init) source) := by
  have hfactor : c.settings .factor = .integer j := (h.settings_of_ne (by decide)).trans hj
  have hpos : 0 < j := Setting.pos_of_atMost (hj ▸ h.factor)
  have hconfidences : c.settings.negativeConfidence = .ok false := by
    rw [h.settings]
    exact h.confidences
  obtain ⟨least, hleast, hnonneg⟩ := h.ridges
  have hridges : c.settings.leastRidge = .ok least := by
    rw [h.settings]
    exact hleast
  have hbiases : ((c.settings .updateGlobalBias).holds && !(c.settings .useBias).holds)
      = false := by
    rw [h.settings]
    exact h.biases
  have hfew : Model.tooFewNegatives c.metric (c.settings .negatives) = .ok false := by
    rw [h.settings_of_ne (by decide)]
    cases c.metric with
    | auc => exact h.negatives
    | objective => rfl
  have hscalar : ∀ v : Setting α, Avoids .configuration v.scalar := Setting.avoids_scalar rfl
  rw [Model.ofSettings, hfactor]
  refine (avoids_factorCount hpos).bind fun n _ => ?_
  refine .of_ok hconfidences (.of_unrefused rfl (.of_ok hridges ?_))
  refine .of_unrefused hnonneg (.of_unrefused hbiases (.of_ok h.ofSetting_metric ?_))
  refine .of_ok hfew (.of_unrefused rfl ?_)
  refine (hscalar _).bind fun _ _ => (hscalar _).bind fun _ _ => (hscalar _).bind fun _ _ => ?_
  refine (hscalar _).bind fun _ _ => (hscalar _).bind fun _ _ => (hscalar _).bind fun _ _ => ?_
  exact (Setting.avoids_whole rfl _).bind fun _ _ => avoids_ok _

/-- An accepted configuration has a **model**, unless a value cannot be converted or the seed is
negative. -/
theorem Recommender.avoids_newModel [Numeral.Ordered α] {s : Settings α} {c : Config α}
    (h : s.Accepted c) {j : Int} (hj : s .factor = .integer j) :
    Avoids .configuration (newModel c) := by
  refine (Setting.avoids_count rfl _).bind fun seed _ => ?_
  have hsource : Avoids .configuration (Source.ofSeed seed) := by
    rw [Source.ofSeed]
    split
    · exact avoids_error (by decide)
    · exact avoids_ok _
  exact hsource.bind fun source _ => Model.avoids_ofSettings h hj source

/-! ### The check that can -/

namespace Recommender

/-- A rate that is **not below zero** is not refused. -/
theorem avoids_schedule {c : Config α} (h : (c.settings .convergenceRate).below 0 = .ok false) :
    Avoids .configuration (schedule c) := by
  have hrule : Avoids .configuration
      (StopRule.ofSettings (c.settings .checkConvergence) (c.settings .convergenceRate)) :=
    .of_ok h (.of_unrefused rfl ((Setting.avoids_number rfl _).bind fun _ _ => avoids_ok _))
  exact hrule.bind fun _ _ => (Setting.avoids_count rfl _).bind fun _ _ => avoids_ok _

/-- A **rate below zero** is refused, and nothing else is. -/
theorem schedule_eq_refused_iff {c : Config α} {refusal : Refusal} :
    schedule c = .error (.refused refusal) ↔
      (c.settings .convergenceRate).below 0 = .ok true ∧
        refusal = .rate (c.settings .convergenceRate).shown := by
  cases hbelow : (c.settings .convergenceRate).below 0 with
  | error f =>
      have hf : Avoids .configuration ((c.settings .convergenceRate).below 0) :=
        (Setting.avoids_number rfl _).map _
      have hschedule : schedule c = .error f := by
        rw [schedule, StopRule.ofSettings, hbelow]
        rfl
      rw [hschedule]
      refine iff_of_false (fun h => ?_) nofun
      exact hf f hbelow (congrArg Fault.kind (Except.error.inj h))
  | ok negative =>
      cases negative with
      | true =>
          have hschedule : schedule c
              = .error (.refused (.rate (c.settings .convergenceRate).shown)) := by
            rw [schedule, StopRule.ofSettings, hbelow]
            rfl
          rw [hschedule, Except.error.injEq, Fault.refused.injEq]
          exact ⟨fun h => ⟨rfl, h.symm⟩, fun h => h.2.symm⟩
      | false =>
          refine iff_of_false (fun h => avoids_schedule hbelow _ h rfl) ?_
          rintro ⟨h, -⟩
          cases h

/-- What is refused with the schedule ends a fit **when the model has been registered**. -/
theorem fitTables_of_refused [Machine] [One ρ] [Operand ρ α] {r : Recommender α} {t : Training ρ}
    {m : Model α n} {f : Fault} (hm : newModel r.config = .ok ⟨n, m⟩)
    (hreg : (registered t m).fault = none) (hs : schedule r.config = .error f) :
    r.fitTables t = .failed (r.noting (Run.start (registered t m).state)) f := by
  rw [fitTables]
  simp only [hm, train, hreg, hs]

end Recommender

/-! ### Accepted configurations -/

/-- What the parts of a fit make of a configuration whose values **no part refuses but for the
rate**. -/
structure Config.Unrefused (c : Config α) : Prop where
  selection : ∀ cutoff userColumn itemColumn timeColumn,
    (Recommender.selection c cutoff userColumn itemColumn timeColumn).check = .ok ()
  weights : ∀ {m n : Nat} (C : Mat α m n), Avoids .configuration (sppmi C (c.settings .shift))
  init : c.settings.vectorInit = .ok c.init
  model : Avoids .configuration (Recommender.newModel c)
  schedule : ∀ refusal, Recommender.schedule c = .error (.refused refusal) ↔
    (c.settings .convergenceRate).below 0 = .ok true ∧
      refusal = .rate (c.settings .convergenceRate).shown

/-- **An accepted configuration is refused for its rate alone**: no part of a fit refuses one of its
other values. A rate below zero is refused, and it is the fit to tables that are there already
which fails, when its model has been built and registered. -/
theorem refused_for_rate_alone [Machine] [Numeral.Ordered α] [One ρ] [Operand ρ α] {s : Settings α}
    {c : Config α} (hc : Config.ofSettings s = .ok c) {j : Int} (hj : s .factor = .integer j) :
    c.Unrefused ∧ ∀ (r : Recommender α) (t : Training ρ) (n : Nat) (m : Model α n), r.config = c →
      Recommender.newModel c = .ok ⟨n, m⟩ → (Recommender.registered t m).fault = none →
      (c.settings .convergenceRate).below 0 = .ok true →
        r.fitTables t = .failed (r.noting (Run.start (Recommender.registered t m).state))
          (.refused (.rate (c.settings .convergenceRate).shown)) := by
  have h := Config.ofSettings_eq_ok_iff.1 hc
  have hinit : c.settings.vectorInit = .ok c.init := by
    rw [h.settings]
    exact h.init
  have hshift : (c.settings .shift).atMost 0 = .ok false := by
    rw [h.settings]
    exact h.shift
  constructor
  · exact {
      selection := Selection.check_of_accepted h
      weights := avoids_sppmi hshift
      init := hinit
      model := Recommender.avoids_newModel h hj
      schedule := fun _ => Recommender.schedule_eq_refused_iff }
  · rintro r t n m rfl hm hreg hnegative
    exact Recommender.fitTables_of_refused hm hreg
      (Recommender.schedule_eq_refused_iff.2 ⟨hnegative, rfl⟩)

/-- Settings with a **rate below zero**, and a value of one for everything else. -/
noncomputable def Settings.eager : Settings ℝ :=
  (Settings.ones .auc 1).set .convergenceRate (.real (-1))

/-- The configuration of these settings. -/
noncomputable def Config.eager : Config ℝ := (Config.ones .auc 1).withRate (.real (-1))

theorem ofSettings_eager [Spelling] : Config.ofSettings Settings.eager = .ok Config.eager :=
  Config.ofSettings_eq_ok_iff.2
    ((Config.ofSettings_eq_ok_iff.1 (ofSettings_ones .auc 1 le_rfl)).withRate (.real (-1)))

theorem below_eager [Spelling] :
    (Config.eager.settings .convergenceRate).below 0 = .ok true :=
  congrArg Except.ok (Scalar.lt_real.2 (by norm_num : (-1 : ℝ) < 0))

/-- Settings that are accepted are **not always** settings that a fit accepts. -/
theorem not_forall_avoids_schedule :
    letI := Spelling.silent
    ¬ ∀ (s : Settings ℝ) (c : Config ℝ), Config.ofSettings s = .ok c →
      Avoids .configuration (Recommender.schedule c) := by
  let _ := Spelling.silent
  intro h
  exact h Settings.eager Config.eager ofSettings_eager _
    (Recommender.schedule_eq_refused_iff.2 ⟨below_eager, rfl⟩) rfl

/-- A fit to tables that are there already **fails for a rate below zero**. -/
theorem refused_for_rate_alone_eager :
    letI := Spelling.silent
    Config.ofSettings Settings.eager = .ok Config.eager ∧
      Settings.eager .factor = .integer 1 ∧ Config.eager.Unrefused ∧
      ((Recommender.ofConfig Config.eager).fitTables Training.mutual).fault
        = some (.refused (.rate (Setting.real (-1 : ℝ)).shown)) := by
  let _ := Spelling.silent
  obtain ⟨hparts, hfit⟩ := refused_for_rate_alone (ρ := ℝ) ofSettings_eager
    (show Settings.eager .factor = .integer 1 from rfl)
  have hmodel := (Recommender.newModel_withRate (Config.ones .auc 1) (.real (-1))).trans
    (newModel_ones .auc 1)
  refine ⟨ofSettings_eager, rfl, hparts, ?_⟩
  rw [hfit (.ofConfig Config.eager) Training.mutual 1 _ rfl hmodel
    (Recommender.registered_done _ _) below_eager]
  rfl

end CoEmbed
