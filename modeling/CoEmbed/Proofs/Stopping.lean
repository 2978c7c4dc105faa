import CoEmbed.Machine.Standard
import CoEmbed.Proofs.Acceptance
import CoEmbed.Proofs.Exact.Order
import CoEmbed.Proofs.Objective.Fit
import CoEmbed.Proofs.Path

/-!
# Stopping only Truncates

The greatest number of sweeps, whether to look at the losses, and the rate below which a decrease
is not worth a sweep decide where a run ends. Up to there it does what it does without them.

* `Progress.settled_mono` — for a larger rate more sweeps are the last one.
* `Recommender.newModel_congr` — the initial model does not depend on when to stop.
* `Recommender.averages_prefix`, `Recommender.findIdx_verdicts_le` — two fits from the same start.
* `Recommender.Ended` — where the stopping of a fit has ended it.
* `stopping_only_truncates` — two fits that differ in their stopping alone.

## Number convention

The number of sweeps is that of the first verdict to stop, or the greatest number if there is no
such verdict before.
-/

namespace CoEmbed

variable {ρ α : Type} {n : ℕ}

/-- The hyperparameters that are about **stopping** alone. -/
def Hyperparameter.stopping : List Hyperparameter :=
  [.iterations, .checkConvergence, .convergenceRate]

/-! ### Verdicts -/

/-- A sweep that is the last one under a rule is so under a rule that looks too and has **a larger
rate**. -/
theorem Progress.settled_mono [Numeral α] [Numeral.Ordered α] {p : Progress α}
    {rule rule' : StopRule α} (hcheck : rule'.check = true)
    (hrate : Scalar.le rule.rate rule'.rate = true) (h : p.settled rule = true) :
    p.settled rule' = true := by
  rw [settled] at h ⊢
  cases hprevious : p.previous with
  | none =>
      simp only [hprevious] at h
      cases h
  | some previous =>
      simp only [hprevious] at h ⊢
      split at h
      · cases h
      · next hlook =>
          split at h
          · cases h
          · next hgrown =>
              have hlook' : ¬ (!rule'.check || decide (p.iteration ≤ 1)
                  || !Scalar.finite previous) = true := by
                intro h'
                rw [hcheck, Bool.not_true, Bool.false_or] at h'
                rw [Bool.or_assoc, h', Bool.or_true] at hlook
                exact hlook rfl
              rw [if_neg hlook', if_neg hgrown]
              split at h
              · next hzero => rw [if_pos hzero]
              · next hzero =>
                  rw [if_neg hzero]
                  exact Numeral.Ordered.lt_of_lt_of_le h hrate

/-! ### Fits that start alike -/

namespace Recommender

variable [Numeral α]

/-- Accepted settings that agree but for stopping have **the same initial model**. -/
theorem newModel_congr {s s' : Settings α} {c c' : Config α} (h : s.Accepted c)
    (h' : s'.Accepted c') (hs : ∀ p, p ∉ Hyperparameter.stopping → s p = s' p) :
    newModel c = newModel c' := by
  have hinit : c.init = c'.init := h.init_eq h' (hs .factor (by decide))
    (hs .initialisation (by decide)) (hs .initialBound (by decide)) (hs .initialStddev (by decide))
  have hmetric : c.metric = c'.metric := by
    have hofSetting := h.metric
    rw [hs .metric (by decide), h'.metric] at hofSetting
    exact (Except.ok.inj hofSetting).symm
  have hsettings : c'.settings = ((c.settings.set .iterations (c'.settings .iterations)).set
      .checkConvergence (c'.settings .checkConvergence)).set .convergenceRate
        (c'.settings .convergenceRate) := by
    funext p
    by_cases hp : p ∈ Hyperparameter.stopping
    · rcases List.mem_cons.1 hp with rfl | hp
      · rfl
      rcases List.mem_cons.1 hp with rfl | hp
      · rfl
      obtain rfl := List.mem_singleton.1 hp
      rfl
    · have hkept : ((c.settings.set .iterations (c'.settings .iterations)).set
          .checkConvergence (c'.settings .checkConvergence)).set .convergenceRate
            (c'.settings .convergenceRate) p = c.settings p := by
        rw [Settings.set, if_neg fun heq => hp (by rw [heq]; decide), Settings.set,
          if_neg fun heq => hp (by rw [heq]; decide), Settings.set,
          if_neg fun heq => hp (by rw [heq]; decide)]
      rw [hkept, h.settings, h'.settings, hmetric, Settings.set, Settings.set, hs p hp]
  obtain ⟨settings, metric, init⟩ := c
  obtain ⟨settings', metric', init'⟩ := c'
  obtain rfl : init = init' := hinit
  change settings' = _ at hsettings
  rw [hsettings]
  rfl

variable [One ρ] [Operand ρ α] {r r' : Recommender α} {rule rule' : StopRule α} {most most' : ℕ}

/-- Of two fits with the same initial model the one that may sweep more often **would record the
same averages**, and then more. -/
theorem averages_prefix [Machine] (hm : newModel r.config = newModel r'.config)
    (hs : schedule r.config = .ok (rule, most)) (hs' : schedule r'.config = .ok (rule', most'))
    (h : most ≤ most') (t : Training ρ) : r.averages t <+: r'.averages t := by
  rcases along_cases r t with ⟨hnil, -⟩ | ⟨n, m, -, -, hm', -, hreg⟩
  · rw [averages, hnil]
    exact List.nil_prefix
  · rw [averages, averages, along_eq _ hm' hs hreg, along_eq _ (hm.symm.trans hm') hs' hreg,
      Run.path_congr_rule t rule rule']
    exact (Run.path_prefix t rule' h _).map _

/-- With as many sweeps a fit that looks too and has **a larger rate** is told to stop no later. -/
theorem findIdx_verdicts_le [Machine] [Numeral.Ordered α]
    (hm : newModel r.config = newModel r'.config)
    (hs : schedule r.config = .ok (rule, most)) (hs' : schedule r'.config = .ok (rule', most))
    (hcheck : rule'.check = true) (hrate : Scalar.le rule.rate rule'.rate = true)
    (t : Training ρ) : (r'.verdicts t).findIdx id ≤ (r.verdicts t).findIdx id := by
  rcases along_cases r' t with ⟨hnil, -⟩ | ⟨n, m, -, -, hm', -, hreg⟩
  · rw [verdicts, hnil]
    exact Nat.zero_le _
  · rw [verdicts, verdicts, along_eq _ (hm.trans hm') hs hreg, along_eq _ hm' hs' hreg,
      List.findIdx_map, List.findIdx_map, Run.path_congr_rule t rule' rule]
    refine List.findIdx_le_findIdx fun q hq hstop => ?_
    have hdone := Run.step_done_of_mem_path hq
    have hdone' := (Run.step_congr_rule t rule' rule q).1.trans hdone
    change Run.stops t rule q = true at hstop
    change Run.stops t rule' q = true
    rw [(Run.step_of_done hdone).2] at hstop
    rw [(Run.step_of_done hdone').2]
    exact Progress.settled_mono hcheck hrate hstop

end Recommender

/-! ### Where a fit ends -/

section

variable [Numeral α]

/-- A schedule holds **what the settings say** about stopping. -/
theorem Recommender.schedule_eq_ok {c : Config α} {rule : StopRule α} {most : ℕ}
    (h : schedule c = .ok (rule, most)) :
    rule.check = (c.settings .checkConvergence).holds ∧
      (c.settings .convergenceRate).number = .ok rule.rate ∧
      ∃ k : ℤ, (c.settings .iterations).count = .ok k ∧ most = k.toNat := by
  obtain ⟨rule', hrule, h⟩ := bind_eq_ok_iff.1 h
  obtain ⟨k, hk, h⟩ := bind_eq_ok_iff.1 h
  obtain ⟨rfl, rfl⟩ := Prod.mk.inj (Except.ok.inj h)
  obtain ⟨negative, -, hrule⟩ := bind_eq_ok_iff.1 hrule
  obtain ⟨-, -, hrule⟩ := bind_eq_ok_iff.1 hrule
  obtain ⟨rate, hrate, hrule⟩ := bind_eq_ok_iff.1 hrule
  obtain rfl := Except.ok.inj hrule
  exact ⟨rfl, hrate, k, hk, rfl⟩

variable [One ρ] [Operand ρ α]

/-- A fit has been **ended by its stopping**: it has recorded one average for each of its sweeps,
and their number is that of the first verdict to stop, or the greatest one if that is less. -/
structure Recommender.Ended [Machine] (r : Recommender α) (t : Training ρ)
    (f : Fitted α) : Prop where
  fitted : (r.fitTables t).state.fitted = some f
  history : f.history = (r.averages t).take ((r.verdicts t).findIdx id + 1)
  iterations : (r.fitTables t).state.iterations = f.history.length
  length : ∃ most : ℤ, (r.config.settings .iterations).count = .ok most ∧
    (f.history.length : ℤ) = min most ((r.verdicts t).findIdx id + 1)

/-- A fit with an accepted configuration that goes through **has been ended by its stopping**. -/
theorem Recommender.ended_of_done [Machine] [Numeral.Ordered α] {s : Settings α} {r : Recommender α}
    {t : Training ρ} (h : s.Accepted r.config) (hf : (r.fitTables t).fault = none) :
    ∃ f, r.Ended t f := by
  obtain ⟨f, rule, most, hfitted, hs, hhistory, hlength, hiterations⟩ := history_of_done hf
  obtain ⟨-, -, k, hk, rfl⟩ := schedule_eq_ok hs
  have hone : 1 ≤ k := by
    refine Setting.one_le_count ?_ hk
    rw [h.settings_of_ne (by decide)]
    exact h.iterations
  exact ⟨f, {
    fitted := hfitted
    history := hhistory
    iterations := hiterations (by omega)
    length := ⟨k, hk, by omega⟩ }⟩

namespace Recommender.Ended

variable {r r' : Recommender α} {t : Training ρ} {f f' : Fitted α} {rule rule' : StopRule α}
  {most most' : ℕ}

/-- Two fits with the same initial model have recorded the first parts of **one list**. -/
theorem exists_averages [Machine] (h : r.Ended t f) (h' : r'.Ended t f')
    (hm : newModel r.config = newModel r'.config) (hs : schedule r.config = .ok (rule, most))
    (hs' : schedule r'.config = .ok (rule', most')) :
    ∃ averages, f.history <+: averages ∧ f'.history <+: averages := by
  have hpart : f.history <+: r.averages t := h.history ▸ List.take_prefix _ _
  have hpart' : f'.history <+: r'.averages t := h'.history ▸ List.take_prefix _ _
  rcases le_total most most' with hle | hle
  · have hmore := averages_prefix hm hs hs' hle t
    exact ⟨_, hpart.trans hmore, hpart'⟩
  · have hmore := averages_prefix hm.symm hs' hs hle t
    exact ⟨_, hpart, hpart'.trans hmore⟩

/-- Of two such fits that may sweep as often, one that looks at the losses and has **the larger
rate** does not sweep more often. -/
theorem iterations_le [Machine] [Numeral.Ordered α] (h : r.Ended t f) (h' : r'.Ended t f')
    (hm : newModel r.config = newModel r'.config) (hs : schedule r.config = .ok (rule, most))
    (hs' : schedule r'.config = .ok (rule', most'))
    (hsame : r.config.settings .iterations = r'.config.settings .iterations)
    (hcheck : rule'.check = true) (hrate : Scalar.le rule.rate rule'.rate = true) :
    (r'.fitTables t).state.iterations ≤ (r.fitTables t).state.iterations := by
  obtain ⟨-, -, k, hk, rfl⟩ := schedule_eq_ok hs
  obtain ⟨-, -, k', hk', rfl⟩ := schedule_eq_ok hs'
  obtain ⟨j, hj, hlength⟩ := h.length
  obtain ⟨j', hj', hlength'⟩ := h'.length
  rw [hsame, hk'] at hk hj
  rw [hk'] at hj'
  obtain rfl : k' = k := Except.ok.inj hk
  obtain rfl : k' = j := Except.ok.inj hj
  obtain rfl : k' = j' := Except.ok.inj hj'
  have hfirst := findIdx_verdicts_le hm hs hs' hcheck hrate t
  rw [h.iterations, h'.iterations]
  omega

end Recommender.Ended

end

/-- **Stopping only truncates a run**: of two fits to the same tables that go through, and whose
accepted configurations agree but for stopping, the shorter one has recorded the first part of what
the longer one has. Each is ended by its own stopping; and of two that may sweep as often, one that
looks at the losses and has the larger rate does not sweep more often than the other. -/
theorem stopping_only_truncates [Machine] [Numeral α] [Numeral.Ordered α] [One ρ] [Operand ρ α]
    {s s' : Settings α} {r r' : Recommender α} (hr : Config.ofSettings s = .ok r.config)
    (hr' : Config.ofSettings s' = .ok r'.config)
    (hs : ∀ p, p ∉ Hyperparameter.stopping → s p = s' p) (t : Training ρ)
    (hf : (r.fitTables t).fault = none) (hf' : (r'.fitTables t).fault = none) :
    ∃ f f', r.Ended t f ∧ r'.Ended t f' ∧
      (f.history.length ≤ f'.history.length → f.history <+: f'.history) ∧
      (f'.history.length ≤ f.history.length → f'.history <+: f.history) ∧
      ∀ x x', (s .convergenceRate).number = .ok x → (s' .convergenceRate).number = .ok x' →
        Scalar.le x x' = true → s .iterations = s' .iterations →
        (s' .checkConvergence).holds = true →
          (r'.fitTables t).state.iterations ≤ (r.fitTables t).state.iterations := by
  have h := Config.ofSettings_eq_ok_iff.1 hr
  have h' := Config.ofSettings_eq_ok_iff.1 hr'
  have hm := Recommender.newModel_congr h h' hs
  obtain ⟨f, hended⟩ := Recommender.ended_of_done h hf
  obtain ⟨f', hended'⟩ := Recommender.ended_of_done h' hf'
  obtain ⟨-, -, rule, most, -, hsched, -⟩ := Recommender.fitTables_of_done hf
  obtain ⟨-, -, rule', most', -, hsched', -⟩ := Recommender.fitTables_of_done hf'
  obtain ⟨averages, hpart, hpart'⟩ := hended.exists_averages hended' hm hsched hsched'
  refine ⟨f, f', hended, hended', List.prefix_of_prefix_length_le hpart hpart',
    List.prefix_of_prefix_length_le hpart' hpart, ?_⟩
  intro x x' hx hx' hle hsame hcheck'
  obtain ⟨-, hrate, -⟩ := Recommender.schedule_eq_ok hsched
  obtain ⟨hcheck, hrate', -⟩ := Recommender.schedule_eq_ok hsched'
  rw [h.settings_of_ne (by decide)] at hrate
  rw [h'.settings_of_ne (by decide)] at hcheck hrate'
  obtain rfl : x = rule.rate := Except.ok.inj (hx.symm.trans hrate)
  obtain rfl : x' = rule'.rate := Except.ok.inj (hx'.symm.trans hrate')
  refine hended.iterations_le hended' hm hsched hsched' ?_ (hcheck.trans hcheck') hle
  rw [h.settings_of_ne (by decide), h'.settings_of_ne (by decide), hsame]

/-- Two fits that may both sweep twice, and of which one has **twice the rate** of the other. -/
theorem stopping_only_truncates_mutual :
    letI := Spelling.silent
    let r : Recommender ℝ := .ofConfig (Config.ones .objective 2)
    let r' : Recommender ℝ := .ofConfig ((Config.ones .objective 2).withRate (.real 2))
    let t := { Training.mutual with heldOut := [(.text "v", .text "a")] }
    (r.fitTables t).fault = none ∧ (r'.fitTables t).fault = none ∧
      ∃ f f', r.Ended t f ∧ r'.Ended t f' ∧
        (f.history.length ≤ f'.history.length → f.history <+: f'.history) ∧
        (f'.history.length ≤ f.history.length → f'.history <+: f.history) ∧
        (r'.fitTables t).state.iterations ≤ (r.fitTables t).state.iterations := by
  let _ := Spelling.silent
  intro r r' t
  have hu : t.userItems.Distinct := by decide
  have hi : t.itemUsers.Distinct := by decide
  have haccepted := ofSettings_ones .objective 2 one_le_two
  have haccepted' := Config.ofSettings_eq_ok_iff.2
    ((Config.ofSettings_eq_ok_iff.1 haccepted).withRate (.real 2))
  have hf : (r.fitTables t).fault = none :=
    fitTables_ones .objective 2 rfl hu hi Training.transposed_mutual Training.symmetric_mutual
  have hf' : (r'.fitTables t).fault = none := fitTables_withRate_ones .objective 2 rfl hu hi
    Training.transposed_mutual Training.symmetric_mutual zero_le_two
  have hagree : ∀ p, p ∉ Hyperparameter.stopping → Settings.ones .objective 2 p
      = (Settings.ones .objective 2).set .convergenceRate (.real 2) p := by
    intro p hp
    exact (if_neg fun heq => hp (by rw [heq]; decide)).symm
  have hlook : (Setting.real (1 : ℝ)).holds = true := by
    rw [Setting.holds, Bool.not_eq_true', ← Bool.not_eq_true, Scalar.eq_real]
    exact one_ne_zero
  obtain ⟨f, f', hended, hended', hprefix, hprefix', hrate⟩ :=
    stopping_only_truncates haccepted haccepted' hagree t hf hf'
  exact ⟨hf, hf', f, f', hended, hended', hprefix, hprefix',
    hrate 1 2 rfl rfl (Scalar.le_real.2 one_le_two) rfl hlook⟩

end CoEmbed
