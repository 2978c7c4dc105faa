import CoEmbed.Proofs.Acceptance
import CoEmbed.Proofs.Exact.Setting
import CoEmbed.Proofs.Objective.Stationary

/-!
# Fits that Go Through

With positive ridges no system of a sweep is without a solution, and in exact arithmetic no loss
is exceptional. What is left that could end a run is a validation that asks for more samples than
there is room for.

* `Model.validate_ok` — a validation has a result.
* `Run.Sound`, `Run.sound_step` — the invariant of a run that never fails.
* `Recommender.fitTables_done_of_positive` — fits that go through.
* `Config.ones` — a configuration with which every fit goes through.
-/

namespace CoEmbed

variable {n : ℕ}

/-! ### Validations and registrations -/

namespace Model

/-- In exact arithmetic every **validation** has a result, if there is room for the items that it
samples. -/
theorem validate_ok [Machine] {m : Model ℝ n} (hneg : 0 ≤ m.hyper.negatives)
    (hroom : roomFor m.hyper.negatives = .ok ()) (u i : Key) :
    ∃ o, (m.validate u i).1 = .ok o := by
  have hfinite : ∀ x : ℝ, ∃ o, finiteLoss u i x = .ok o := fun x =>
    ⟨some x, by rw [finiteLoss, Scalar.finite_real, if_pos rfl]⟩
  rw [validate]
  cases hu : m.theta.get? u with
  | none => exact ⟨none, rfl⟩
  | some v =>
      cases hi : m.beta.get? i with
      | none => exact ⟨none, rfl⟩
      | some w =>
          simp only [Scalar.exceptional?_real]
          cases m.hyper.metric with
          | objective =>
              simp only [errorLoss, squared_real]
              exact hfinite _
          | auc =>
              have hdraw : ∃ r, m.negativesFor u i = .ok r := by
                rw [negativesFor, hroom]
                change ∃ r, drawNegatives _ _ _ _ = .ok r
                rw [drawNegatives, drawCount, if_neg (not_lt.2 hneg)]
                exact ⟨_, rfl⟩
              obtain ⟨r, hr⟩ := hdraw
              simp only [hr, rankLoss]
              split
              · next hall =>
                  have htrue : (m.scores v r.1).all Scalar.finite = true :=
                    List.all_eq_true.2 fun x _ => Scalar.finite_real x
                  rw [htrue] at hall
                  cases hall
              · split
                · exact ⟨none, rfl⟩
                · exact hfinite _

/-- In exact arithmetic vectors can always be **drawn**. -/
theorem canRegister_real (m : Model ℝ n) (W : Factors ℝ n) (ks : List Key) :
    m.canRegister W ks = true := by
  have hdraw : m.hyper.init.drawable = true := by
    rw [VectorInit.drawable]
    split <;> rfl
  rw [canRegister, hdraw, Bool.true_or]

end Model

/-- In exact arithmetic **registration** goes through. -/
theorem Recommender.registered_done [Machine] [Spelling] (t : Training ℝ) (m : Model ℝ n) :
    (registered t m).fault = none := by
  have husers : ((m.withCounters .complete).registerHistories t.userItems).fault = none := by
    rw [Model.registerHistories, Model.registerUsers, Model.canRegister_real, if_pos rfl]
    rfl
  rw [registered, Outcome.bind_of_done husers, Model.registerItems, Model.canRegister_real,
    Model.canRegister_real]
  rfl

/-! ### Runs -/

namespace Run

variable {t : Training ℝ}

/-- What makes the steps of a run **go through**. -/
structure Sound [Machine] (t : Training ℝ) (r : Run ℝ n) : Prop where
  positive : r.model.hyper.Positive
  covers : r.model.Covers t
  globalBias : r.model.hyper.updateGlobalBias = true → r.model.hyper.useBias = true
  asked : 0 ≤ r.model.hyper.negatives
  room : roomFor r.model.hyper.negatives = .ok ()

theorem Sound.of_frame [Machine] {r r' : Run ℝ n} (h : Sound t r)
    (hframe : r.model.Frame r'.model) : Sound t r' := by
  obtain ⟨hpos, hcov, hglobal, hasked, hroom⟩ := h
  rw [← hframe.hyper] at hpos hglobal hasked hroom
  exact ⟨hpos, hcov.of_frame hframe, hglobal, hasked, hroom⟩

/-- A **validation** goes through. -/
theorem validate_done [Machine] {r : Run ℝ n} (h : Sound t r) : (validate t r).fault = none := by
  have hpairs : (Outcome.each validatePair (r, 0) t.heldOut).fault = none ∧
      Sound t (Outcome.each validatePair (r, 0) t.heldOut).state.1 := by
    refine Outcome.each_done (fun s : Run ℝ n × ℕ => Sound t s.1) h ?_
    rintro s p - hs
    refine ⟨?_, hs.of_frame ?_⟩
    · obtain ⟨o, ho⟩ := Model.validate_ok hs.asked hs.room p.1 p.2
      rw [validatePair]
      cases hv : s.1.model.validate p.1 p.2 with
      | mk loss source =>
          rw [hv] at ho
          obtain rfl : loss = .ok o := ho
          cases o <;> rfl
    · obtain ⟨⟨source, hmodel⟩, -⟩ := validatePair_model s p
      rw [hmodel]
      exact Model.Frame.withSource _ source
  rw [validate, Outcome.bind_of_done hpairs.1]
  split
  · rfl
  · rw [Model.loss_eq _ hpairs.2.covers]
    rfl

/-- A **step** goes through. -/
theorem sound_step [Machine] {rule : StopRule ℝ} {r : Run ℝ n} (hu : t.userItems.Distinct)
    (hi : t.itemUsers.Distinct) (ht : t.Transposed) (hs : t.Symmetric) (h : Sound t r) :
    (step t rule r).fault = none ∧ Sound t (step t rule r).state.1 := by
  have hiter := Model.iterate_done h.positive hu hi
  have himp := Model.improves_iterate h.covers ht hs h.globalBias hiter
  have hswept : Sound t (swept t r) := h.of_frame himp.frame
  have hvalid := validate_done hswept
  have hdone : (step t rule r).fault = none := by
    rcases step_cases t rule r with ⟨f, hf, -⟩ | ⟨-, f, hf, -⟩ | ⟨-, -, hstep⟩
    · rw [hiter] at hf
      cases hf
    · rw [hvalid] at hf
      cases hf
    · rw [hstep]
      rfl
  obtain ⟨-, ⟨source, hmodel⟩, -⟩ := step_model_of_done hdone
  refine ⟨hdone, h.of_frame ?_⟩
  rw [hmodel]
  exact himp.frame.trans (Model.Frame.withSource _ source)

end Run

/-- With positive ridges a **fit** goes through, once its model can be built and its schedule
read. -/
theorem Recommender.fitTables_done_of_positive [Machine] [Spelling] {r : Recommender ℝ}
    {t : Training ℝ} {hyper : Hyper ℝ} {globalBias : ℝ} {source : Source} {rule : StopRule ℝ}
    {most : ℕ}
    (hm : newModel r.config = .ok ⟨n, Model.empty hyper globalBias source⟩)
    (hsched : schedule r.config = .ok (rule, most)) (hpos : hyper.Positive)
    (hg : hyper.updateGlobalBias = true → hyper.useBias = true)
    (hasked : 0 ≤ hyper.negatives) (hroom : roomFor hyper.negatives = .ok ())
    (hu : t.userItems.Distinct) (hi : t.itemUsers.Distinct) (ht : t.Transposed)
    (hs : t.Symmetric) : (r.fitTables t).fault = none := by
  have hreg := registered_done t (Model.empty hyper globalBias source : Model ℝ n)
  obtain ⟨hhyper, hcovers, -⟩ := registered_of_done hreg
  have hstart : Run.Sound t (Run.start (registered t (Model.empty hyper globalBias source :
      Model ℝ n)).state) := by
    rw [← hhyper] at hpos hg hasked hroom
    exact ⟨hpos, hcovers, hg, hasked, hroom⟩
  exact fitTables_done hm hsched hreg
    (Run.loop_done (Run.Sound t) (fun _ h => Run.sound_step hu hi ht hs h) hstart)

/-! ### A configuration -/

/-- Settings in which every number is **one**, but for the greatest number of sweeps. -/
noncomputable def Settings.ones (metric : Metric) (most : ℕ) : Settings ℝ
  | .factor | .negatives | .seed => .integer 1
  | .iterations => .integer most
  | .useBias | .updateGlobalBias => .flag true
  | .metric => .text metric.name
  | .initialisation => .text "gaussian"
  | _ => .real 1

/-- The configuration of these settings. -/
noncomputable def Config.ones (metric : Metric) (most : ℕ) : Config ℝ :=
  ⟨Settings.ones metric most, metric, ⟨.gaussian, 1, 1, 1⟩⟩

/-- Its **rate** is one as well. -/
theorem Config.withRate_ones (metric : Metric) (most : ℕ) :
    (Config.ones metric most).withRate (.real 1) = Config.ones metric most := by
  have hset : (Settings.ones metric most).set .convergenceRate (.real 1)
      = Settings.ones metric most := by
    funext p
    cases p <;> rfl
  exact congrArg (fun s => (⟨s, metric, ⟨.gaussian, 1, 1, 1⟩⟩ : Config ℝ)) hset

section

variable [Spelling]

variable (metric : Metric) (most : ℕ)

theorem ofSetting_ones : Metric.ofSetting (Settings.ones metric most .metric) = .ok metric :=
  Metric.ofSetting_name metric

theorem leastRidge_ones : (Settings.ones metric most).leastRidge = .ok 1 := by
  have hmin : Scalar.min (1 : ℝ) 1 = 1 := by
    rw [Scalar.min]
    split <;> rfl
  change Except.ok (Scalar.min (Scalar.min (1 : ℝ) 1) 1) = _
  rw [hmin, hmin]

/-- The scheme of these settings is that of a **spread of one**. -/
theorem vectorInit_ones : (Settings.ones metric most).vectorInit = .ok ⟨.gaussian, 1, 1, 1⟩ := by
  have hfloor : (1 : ℝ) / (Scalar.ofInt 1 : ℝ) = 1 := by
    rw [Scalar.ofInt_real, Int.cast_one, div_one]
  have hkind : VectorInit.kindNamed (Setting.text (α := ℝ) "gaussian") = .ok .gaussian := by
    have hname : VectorInit.Kind.ofAlias? "gaussian" = some .gaussian := by decide
    simp only [VectorInit.kindNamed, Setting.shown, hname]
  have hbelow : (Setting.real (1 : ℝ)).below 0 = .ok false := Setting.below_of_le rfl zero_le_one
  have habove : (Setting.real (1 : ℝ)).atMost 0 = .ok false := Setting.atMost_of_lt rfl zero_lt_one
  refine bind_eq_ok_iff.2 ⟨Scalar.ofInt 1, rfl, bind_eq_ok_iff.2 ⟨.gaussian, hkind, ?_⟩⟩
  rw [hfloor]
  refine bind_eq_ok_iff.2 ⟨false, habove, bind_eq_ok_iff.2 ⟨(), rfl, ?_⟩⟩
  refine bind_eq_ok_iff.2 ⟨false, hbelow, bind_eq_ok_iff.2 ⟨(), rfl, ?_⟩⟩
  exact bind_eq_ok_iff.2 ⟨false, hbelow, bind_eq_ok_iff.2 ⟨(), rfl, rfl⟩⟩

/-- These settings are **accepted**. -/
theorem ofSettings_ones (h : 1 ≤ most) :
    Config.ofSettings (Settings.ones metric most) = .ok (Config.ones metric most) := by
  have hone : (Setting.integer (α := ℝ) 1).number = .ok 1 := by
    rw [Setting.number_integer, Int.cast_one]
  have hmost : (1 : ℝ) ≤ (most : ℤ) := by exact_mod_cast h
  have hbelow : (Setting.real (1 : ℝ)).below 0 = .ok false := Setting.below_of_le rfl zero_le_one
  exact Config.ofSettings_eq_ok_iff.2 {
    factor := Setting.atMost_of_lt hone zero_lt_one
    iterations := Setting.below_of_le (Setting.number_integer most) hmost
    share := Setting.isShare_of_le (x := 1) rfl zero_le_one le_rfl
    biases := rfl
    confidences := bind_eq_ok_iff.2 ⟨false, hbelow, hbelow⟩
    ridges := ⟨1, leastRidge_ones metric most, Scalar.lt_real_eq_false.2 zero_le_one⟩
    negatives := Setting.below_of_le hone le_rfl
    shift := Setting.atMost_of_lt (x := 1) rfl zero_lt_one
    metric := ofSetting_ones metric most
    init := vectorInit_ones metric most
    settings := by
      funext p
      cases p <;> rfl }

/-- These settings **with biases or without** have a model, however many items they ask to be
sampled. -/
theorem Model.ofSettings_asking {negatives : ℤ} (h : 1 ≤ negatives) (b : Bool) (source : Source) :
    Model.ofSettings ((((Settings.ones metric most).set .negatives (.integer negatives)).set
        .useBias (.flag b)).set .updateGlobalBias (.flag b)) (some ⟨.gaussian, 1, 1, 1⟩) source
      = .ok ⟨1, Model.empty ⟨1, 1, 1, 1, 1, ⟨.gaussian, 1, 1, 1⟩, metric, negatives, b, b⟩ 1
          source⟩ := by
  have hone : (1 : ℝ) ≤ negatives := by exact_mod_cast h
  have hbelow : (Setting.real (1 : ℝ)).below 0 = .ok false := Setting.below_of_le rfl zero_le_one
  have hfew : Model.tooFewNegatives metric (Setting.integer (α := ℝ) negatives) = .ok false := by
    cases metric with
    | auc => exact Setting.below_of_le (Setting.number_integer negatives) hone
    | objective => rfl
  refine bind_eq_ok_iff.2 ⟨1, rfl, bind_eq_ok_iff.2 ⟨false, ?_, ?_⟩⟩
  · exact bind_eq_ok_iff.2 ⟨false, hbelow, hbelow⟩
  refine bind_eq_ok_iff.2 ⟨(), rfl, bind_eq_ok_iff.2 ⟨1, leastRidge_ones metric most, ?_⟩⟩
  refine bind_eq_ok_iff.2 ⟨(), refuseIf_eq_ok_iff.2 (Scalar.lt_real_eq_false.2 zero_le_one), ?_⟩
  refine bind_eq_ok_iff.2 ⟨(), refuseIf_eq_ok_iff.2 (Bool.and_not_self b), ?_⟩
  refine bind_eq_ok_iff.2 ⟨metric, ofSetting_ones metric most, ?_⟩
  exact bind_eq_ok_iff.2 ⟨false, hfew, rfl⟩

/-- These settings **with biases or without** have a model. -/
theorem Model.ofSettings_ones (b : Bool) (source : Source) :
    Model.ofSettings (((Settings.ones metric most).set .useBias (.flag b)).set .updateGlobalBias
        (.flag b)) (some ⟨.gaussian, 1, 1, 1⟩) source
      = .ok ⟨1, Model.empty ⟨1, 1, 1, 1, 1, ⟨.gaussian, 1, 1, 1⟩, metric, 1, b, b⟩ 1 source⟩ := by
  have hset : (Settings.ones metric most).set .negatives (.integer 1)
      = Settings.ones metric most := by
    funext p
    cases p <;> rfl
  have hmodel := Model.ofSettings_asking metric most le_rfl b source
  rwa [hset] at hmodel

/-- The hyperparameters of these settings. -/
noncomputable def Hyper.ones : Hyper ℝ :=
  ⟨1, 1, 1, 1, 1, ⟨.gaussian, 1, 1, 1⟩, metric, 1, true, true⟩

omit [Spelling] in
theorem Hyper.positive_ones : (Hyper.ones metric).Positive :=
  ⟨zero_le_one, zero_le_one, zero_lt_one, zero_lt_one, zero_lt_one⟩

/-- The model of this configuration. -/
noncomputable def Model.ones : Model ℝ 1 := Model.empty (Hyper.ones metric) 1 ⟨UInt64.ofNat 1, 0⟩

theorem newModel_ones :
    Recommender.newModel (Config.ones metric most) = .ok ⟨1, Model.ones metric⟩ := by
  have hset : ((Settings.ones metric most).set .useBias (.flag true)).set .updateGlobalBias
      (.flag true) = Settings.ones metric most := by
    funext p
    cases p <;> rfl
  have hmodel := Model.ofSettings_ones metric most true ⟨UInt64.ofNat 1, 0⟩
  rw [hset] at hmodel
  exact bind_eq_ok_iff.2 ⟨1, rfl, bind_eq_ok_iff.2 ⟨_, rfl, hmodel⟩⟩

/-- This configuration has a schedule, with **any rate** that is not below zero. -/
theorem schedule_withRate_ones {x : ℝ} (hx : 0 ≤ x) :
    ∃ rule, Recommender.schedule ((Config.ones metric most).withRate (.real x))
      = .ok (rule, most) := by
  have hrule : StopRule.ofSettings (Setting.real (1 : ℝ)) (Setting.real x)
      = .ok ⟨(Setting.real (1 : ℝ)).holds, x⟩ :=
    bind_eq_ok_iff.2 ⟨false, Setting.below_of_le rfl hx, bind_eq_ok_iff.2 ⟨(), rfl, rfl⟩⟩
  exact ⟨_, bind_eq_ok_iff.2 ⟨_, hrule, rfl⟩⟩

theorem schedule_ones :
    ∃ rule, Recommender.schedule (Config.ones metric most) = .ok (rule, most) :=
  Config.withRate_ones metric most ▸ schedule_withRate_ones metric most zero_le_one

section

variable [Machine] {t : Training ℝ} (hroom : roomFor 1 = .ok ())

include hroom

/-- A fit with this configuration **goes through**, whatever the rate, if there is room for the one
item that it samples for a pair. -/
theorem fitTables_withRate_ones (hu : t.userItems.Distinct) (hi : t.itemUsers.Distinct)
    (ht : t.Transposed) (hs : t.Symmetric) {x : ℝ} (hx : 0 ≤ x) :
    ((Recommender.ofConfig ((Config.ones metric most).withRate (.real x))).fitTables t).fault
      = none := by
  obtain ⟨rule, hsched⟩ := schedule_withRate_ones metric most hx
  exact Recommender.fitTables_done_of_positive
    ((Recommender.newModel_withRate _ (.real x)).trans (newModel_ones metric most)) hsched
    (Hyper.positive_ones metric) (fun _ => rfl) zero_le_one hroom hu hi ht hs

theorem fitTables_ones (hu : t.userItems.Distinct) (hi : t.itemUsers.Distinct)
    (ht : t.Transposed) (hs : t.Symmetric) :
    ((Recommender.ofConfig (Config.ones metric most)).fitTables t).fault = none :=
  Config.withRate_ones metric most ▸
    fitTables_withRate_ones metric most hroom hu hi ht hs zero_le_one

end

end

end CoEmbed
