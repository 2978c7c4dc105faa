import CoEmbed.Machine.Standard
import CoEmbed.Proofs.Acceptance
import CoEmbed.Proofs.Objective.Fit
import CoEmbed.Proofs.Trail

/-!
# Held-Out Data never Shape the Parameters

Two runs on the same tables, whatever they hold out and however they validate and stop, have
the same parameters after each iteration that both complete. A validation draws from the source
that the initial vectors came from, but no sweep looks at the source, at the metric, or at the
number of items that a validation samples.

* `Model.resampled` — the model as it would be with other validations.
* `Model.iterate_resampled` — an iteration does the same to it.
* `Recommender.registered_resampled` — so does registration, from the same source.
* `Run.trail_resampled` — the models of two runs stay the same but for their validations.
* `trail_eq_of_validation` — two runs that differ in their validations alone.

## Length convention

A trail ends with the last iteration that is completed. Validations decide how long it is.
-/

namespace CoEmbed

variable {ρ α : Type} {n : ℕ}

/-! ### Models that are validated otherwise -/

namespace Model

/-- The model **as it would be with other validations**: another metric, another number of
sampled items, and a source that has moved. -/
def resampled (metric : Metric) (negatives : ℤ) (move : Source → Source) (m : Model α n) :
    Model α n :=
  { m with
    hyper := { m.hyper with metric := metric, negatives := negatives }
    source := move m.source }

variable (metric : Metric) (negatives : ℤ) (move : Source → Source)

@[simp] theorem seenBetaBias_resampled (m : Model α n) :
    (m.resampled metric negatives move).seenBetaBias = m.seenBetaBias := rfl

@[simp] theorem seenGammaBias_resampled (m : Model α n) :
    (m.resampled metric negatives move).seenGammaBias = m.seenGammaBias := rfl

section

variable [Scalar α]

/-- **Registering users** draws from the source, and looks at nothing else that a validation is
about. -/
theorem registerUsers_resampled [Machine] (m : Model α n) (ks : List Key) :
    (m.resampled metric negatives id).registerUsers ks
      = (m.registerUsers ks).map (resampled metric negatives id) := by
  rw [registerUsers, registerUsers]
  exact Outcome.map_ite Iff.rfl rfl rfl

/-- **Registering items** draws from the source, and looks at nothing else that a validation is
about. -/
theorem registerItems_resampled [Machine] (m : Model α n) (ks : List Key) :
    (m.resampled metric negatives id).registerItems ks
      = (m.registerItems ks).map (resampled metric negatives id) := by
  rw [registerItems, registerItems]
  exact Outcome.map_ite Iff.rfl rfl rfl

variable [Operand ρ α]

/-! A step computes its value from the parameters alone, which are the same in both models. -/

theorem sweepUser_resampled (background : Mat α n n) (m : Model α n) (row : Key × List Key) :
    sweepUser background (m.resampled metric negatives move) row
      = (sweepUser background m row).map (resampled metric negatives move) := by
  rw [sweepUser, sweepUser]
  refine Outcome.map_ite Iff.rfl ?_ rfl
  dsimp only [resampled, countRow, count]
  cases newTheta row.2 m.beta background m.hyper.unobserved m.hyper.observed <;> rfl

theorem updateBeta_resampled (background : Mat α n n) (m : Model α n) (item : Key)
    (raters : List Key) (row : Row ρ) :
    updateBeta background (m.resampled metric negatives move) item raters row
      = (updateBeta background m item raters row).map (resampled metric negatives move) := by
  rw [updateBeta, updateBeta, seenBetaBias_resampled, seenGammaBias_resampled]
  dsimp only [resampled]
  cases newBeta item raters row m.theta m.gamma m.seenBetaBias m.seenGammaBias background
    m.hyper.unobserved m.hyper.observed m.globalBias <;> rfl

theorem updateGamma_resampled (m : Model α n) (item : Key) (row : Row ρ) :
    updateGamma (m.resampled metric negatives move) item row
      = (updateGamma m item row).map (resampled metric negatives move) := by
  rw [updateGamma, updateGamma, seenBetaBias_resampled, seenGammaBias_resampled]
  dsimp only [resampled]
  rcases newGamma item row m.beta m.seenBetaBias m.seenGammaBias m.hyper.ridgeGamma m.globalBias
    with f | (_ | v) <;> rfl

theorem updateBiases_resampled (m : Model α n) (item : Key) (row : Row ρ) :
    updateBiases (m.resampled metric negatives move) item row
      = (updateBiases m item row).map (resampled metric negatives move) := by
  rw [updateBiases, updateBiases]
  dsimp only [resampled]
  rcases newBias item row m.beta m.gamma (some m.gammaBias) m.globalBias with f | (_ | b)
  · rfl
  · dsimp only
    rcases newBias item row m.gamma m.beta (some m.betaBias) m.globalBias with f | (_ | c) <;> rfl
  · dsimp only
    rcases newBias item row m.gamma m.beta (some (m.betaBias.insert item (.real b)))
      m.globalBias with f | (_ | c) <;> rfl

theorem updateGlobal_resampled (m : Model α n) (items : List Key) (rows : Table Key (Row ρ)) :
    updateGlobal (m.resampled metric negatives move) items rows
      = (updateGlobal m items rows).map (resampled metric negatives move) := by
  rw [updateGlobal, updateGlobal]
  refine Outcome.map_ite Iff.rfl ?_ rfl
  dsimp only [resampled]
  rcases newGlobalBias items rows m.beta m.gamma (some m.betaBias) (some m.gammaBias)
    with f | (_ | b) <;> rfl

theorem sweepItem_resampled (background : Mat α n n) (rows : Table Key (Row ρ)) (m : Model α n)
    (row : Key × List Key) :
    sweepItem background rows (m.resampled metric negatives move) row
      = (sweepItem background rows m row).map (resampled metric negatives move) := by
  let neighbors := (rows.get? row.1).getD []
  let counted := (m.countRow .betaTotal .betaTrainable .skippedUsers row.2 m.theta).count
    .skippedItems (neighbors.filter fun e => decide (e.1 ∉ m.gamma)).length
  have hbeta := updateBeta_resampled metric negatives move background counted row.1 row.2 neighbors
  rw [sweepItem, sweepItem]
  refine Outcome.map_ite Iff.rfl (Outcome.map_bind (Outcome.map_bind hbeta fun m => ?_)
    fun m => ?_) rfl
  · exact updateGamma_resampled metric negatives move m _ _
  · exact Outcome.map_ite Iff.rfl (updateBiases_resampled metric negatives move m _ _) rfl

theorem updateUsers_resampled (m : Model α n) (userItems : Table Key (List Key)) :
    (m.resampled metric negatives move).updateUsers userItems
      = (m.updateUsers userItems).map (resampled metric negatives move) := by
  have heach := Outcome.map_each (resampled metric negatives move)
    (sweepUser_resampled metric negatives move
      (m.beta.background m.hyper.unobserved m.hyper.ridgeTheta)) m userItems.entries
  rw [updateUsers, updateUsers]
  exact Outcome.map_bind heach fun _ => rfl

theorem updateItems_resampled (m : Model α n) (itemUsers : Table Key (List Key))
    (rows : Table Key (Row ρ)) :
    (m.resampled metric negatives move).updateItems itemUsers rows
      = (m.updateItems itemUsers rows).map (resampled metric negatives move) := by
  have heach := Outcome.map_each (resampled metric negatives move)
    (sweepItem_resampled metric negatives move
      (m.theta.background m.hyper.unobserved m.hyper.ridgeBeta) rows) m itemUsers.entries
  rw [updateItems, updateItems]
  exact Outcome.map_bind (Outcome.map_bind heach fun m =>
    updateGlobal_resampled metric negatives move m _ _) fun _ => rfl

/-- An **iteration** does the same to a model that is validated otherwise. -/
theorem iterate_resampled (m : Model α n) (t : Training ρ) :
    (m.resampled metric negatives move).iterate t
      = (m.iterate t).map (resampled metric negatives move) := by
  exact Outcome.map_bind (updateUsers_resampled metric negatives move m _) fun m =>
    updateItems_resampled metric negatives move m _ _

end

end Model

/-! ### Runs that start alike -/

/-- The hyperparameters that are about **validating and stopping** alone. -/
def Hyperparameter.validating : List Hyperparameter :=
  [.metric, .negatives, .validationShare, .iterations, .checkConvergence, .convergenceRate]

/-- Settings that agree but for validating and stopping describe **the same model** but for its
validations. -/
theorem Settings.Describes.agree [Numeral α] {s s' : Settings α} {n' : ℕ} {hyper hyper' : Hyper α}
    {globalBias globalBias' : α} (h : s.Describes n hyper globalBias)
    (h' : s'.Describes n' hyper' globalBias') (hinit : hyper.init = hyper'.init)
    (hs : ∀ p, p ∉ Hyperparameter.validating → s p = s' p) :
    n = n' ∧ globalBias = globalBias' ∧
      hyper' = { hyper with metric := hyper'.metric, negatives := hyper'.negatives } := by
  have hfactor := h.factor
  have hunobserved := h.unobserved
  have hobserved := h.observed
  have htheta := h.ridgeTheta
  have hbeta := h.ridgeBeta
  have hgamma := h.ridgeGamma
  have hglobal := h.globalBias
  have hbias := h.useBias
  have hupdate := h.updateGlobalBias
  rw [hs _ (by decide), h'.factor] at hfactor
  rw [hs _ (by decide), h'.unobserved] at hunobserved
  rw [hs _ (by decide), h'.observed] at hobserved
  rw [hs _ (by decide), h'.ridgeTheta] at htheta
  rw [hs _ (by decide), h'.ridgeBeta] at hbeta
  rw [hs _ (by decide), h'.ridgeGamma] at hgamma
  rw [hs _ (by decide), h'.globalBias] at hglobal
  rw [hs _ (by decide), h'.useBias] at hbias
  rw [hs _ (by decide), h'.updateGlobalBias] at hupdate
  obtain ⟨c₀, c₁, ridgeTheta, ridgeBeta, ridgeGamma, init, metric, negatives, biased,
    learnt⟩ := hyper
  obtain ⟨c₀', c₁', ridgeTheta', ridgeBeta', ridgeGamma', init', metric', negatives', biased',
    learnt'⟩ := hyper'
  obtain rfl : n' = n := Except.ok.inj hfactor
  obtain rfl : c₀' = c₀ := Except.ok.inj hunobserved
  obtain rfl : c₁' = c₁ := Except.ok.inj hobserved
  obtain rfl : ridgeTheta' = ridgeTheta := Except.ok.inj htheta
  obtain rfl : ridgeBeta' = ridgeBeta := Except.ok.inj hbeta
  obtain rfl : ridgeGamma' = ridgeGamma := Except.ok.inj hgamma
  obtain rfl : init = init' := hinit
  obtain rfl : biased' = biased := hbias
  obtain rfl : learnt' = learnt := hupdate
  exact ⟨rfl, (Except.ok.inj hglobal).symm, rfl⟩

namespace Recommender

/-- **Registration** does the same to a model that is validated otherwise. -/
theorem registered_resampled [Machine] [Numeral α] (metric : Metric) (negatives : ℤ)
    (t : Training ρ) (m : Model α n) :
    registered t (m.resampled metric negatives id)
      = (registered t m).map (Model.resampled metric negatives id) := by
  rw [registered, registered]
  exact Outcome.map_bind (Model.registerUsers_resampled metric negatives
    { m.withCounters .complete with
      histories := t.userItems.entries.foldl (fun h e => h.insert e.1 e.2) m.histories } _) fun m =>
    Model.registerItems_resampled metric negatives m _

/-- Configurations that agree but for validating and stopping have **the same initial model** but
for its validations, with a source that has the same seed. -/
theorem newModel_resampled [Numeral α] {s s' : Settings α} {c c' : Config α} {n' : ℕ}
    {m : Model α n} {m' : Model α n'} (hc : Config.ofSettings s = .ok c)
    (hc' : Config.ofSettings s' = .ok c') (hs : ∀ p, p ∉ Hyperparameter.validating → s p = s' p)
    (hm : newModel c = .ok ⟨n, m⟩) (hm' : newModel c' = .ok ⟨n', m'⟩) :
    ∃ metric negatives,
      (⟨n', m'⟩ : (n : ℕ) × Model α n) = ⟨n, m.resampled metric negatives id⟩ := by
  have haccepted := Config.ofSettings_eq_ok_iff.1 hc
  have haccepted' := Config.ofSettings_eq_ok_iff.1 hc'
  have hagree : ∀ p, p ∉ Hyperparameter.validating → c.settings p = c'.settings p := by
    intro p hp
    have hne : p ≠ .metric := fun h => hp (h ▸ List.mem_cons_self)
    rw [haccepted.settings_of_ne hne, haccepted'.settings_of_ne hne, hs p hp]
  have hscheme : c.init = c'.init := haccepted.init_eq haccepted' (hs .factor (by decide))
    (hs .initialisation (by decide)) (hs .initialBound (by decide)) (hs .initialStddev (by decide))
  obtain ⟨hyper, globalBias, source, rfl, hdesc, hdrawn, hsource⟩ := newModel_eq_ok hm
  obtain ⟨hyper', globalBias', source', rfl, hdesc', hdrawn', hsource'⟩ := newModel_eq_ok hm'
  rw [hagree .seed (by decide)] at hsource
  obtain rfl : source = source' := Except.ok.inj (hsource.symm.trans hsource')
  obtain ⟨rfl, rfl, hhyper⟩ := hdesc.agree hdesc' (by rw [hdrawn, hdrawn', hscheme]) hagree
  refine ⟨hyper'.metric, hyper'.negatives, ?_⟩
  rw [hhyper]
  rfl

end Recommender

/-! ### Two runs side by side -/

namespace Run

variable [Scalar α] [One ρ] [Operand ρ α]

/-- Two completed steps on the same tables keep the models of two runs **the same but for their
validations**. -/
theorem step_resampled [Machine] {t : Training ρ} {pairs pairs' : List (Key × Key)}
    {rule rule' : StopRule α} {metric : Metric} {negatives : ℤ} {source : Source} {r r' : Run α n}
    (h : r'.model = r.model.resampled metric negatives fun _ => source)
    (hf : (step { t with heldOut := pairs } rule r).fault = none)
    (hf' : (step { t with heldOut := pairs' } rule' r').fault = none) :
    ∃ source', (step { t with heldOut := pairs' } rule' r').state.1.model
      = (step { t with heldOut := pairs } rule r).state.1.model.resampled metric negatives
          fun _ => source' := by
  obtain ⟨-, ⟨s, hs⟩, -⟩ := step_model_of_done hf
  obtain ⟨-, ⟨s', hs'⟩, -⟩ := step_model_of_done hf'
  have hiter : (r'.model.iterate t).state
      = (r.model.iterate t).state.resampled metric negatives fun _ => source := by
    rw [h, Model.iterate_resampled]
    rfl
  refine ⟨s', ?_⟩
  rw [hs, hs']
  change (r'.model.iterate t).state.withSource s' = _
  rw [hiter]
  rfl

/-- After each iteration that **both runs** complete, their models are the same but for their
validations. -/
theorem trail_resampled [Machine] {t : Training ρ} {pairs pairs' : List (Key × Key)}
    {rule rule' : StopRule α} {metric : Metric} {negatives : ℤ} {k left left' : ℕ}
    {r r' : Run α n} {m m' : Model α n}
    (h : ∃ source, r'.model = r.model.resampled metric negatives fun _ => source)
    (hm : (trail { t with heldOut := pairs } rule left r)[k]? = some m)
    (hm' : (trail { t with heldOut := pairs' } rule' left' r')[k]? = some m') :
    ∃ source, m' = m.resampled metric negatives fun _ => source := by
  induction k generalizing left left' r r' with
  | zero =>
      obtain ⟨source, h⟩ := h
      obtain ⟨hf, hfirst, -⟩ := trail_getElem?_eq_some hm
      obtain ⟨hf', hfirst', -⟩ := trail_getElem?_eq_some hm'
      rw [hfirst rfl, hfirst' rfl]
      exact step_resampled h hf hf'
  | succ k ih =>
      obtain ⟨source, h⟩ := h
      obtain ⟨hf, -, hrest⟩ := trail_getElem?_eq_some hm
      obtain ⟨hf', -, hrest'⟩ := trail_getElem?_eq_some hm'
      obtain ⟨_, hm⟩ := hrest k rfl
      obtain ⟨_, hm'⟩ := hrest' k rfl
      exact ih (step_resampled h hf hf') hm hm'

end Run

/-- **Held-out data never shape the parameters**: two fits to the same tables, whose
configurations agree but for validating and stopping, have the same parameters after each
iteration that both complete, whatever each of them holds out. -/
theorem trail_eq_of_validation [Machine] [Numeral α] [One ρ] [Operand ρ α] {s s' : Settings α}
    {r r' : Recommender α} (hr : Config.ofSettings s = .ok r.config)
    (hr' : Config.ofSettings s' = .ok r'.config)
    (hs : ∀ p, p ∉ Hyperparameter.validating → s p = s' p) (t : Training ρ)
    (pairs pairs' : List (Key × Key)) (k : ℕ) {P P' : (n : ℕ) × Parameters α n}
    (hP : (r.trail { t with heldOut := pairs })[k]? = some P)
    (hP' : (r'.trail { t with heldOut := pairs' })[k]? = some P') : P = P' := by
  obtain ⟨n, m₀, rule, most, m, hnew, -, -, hm, rfl⟩ := Recommender.trail_getElem?_eq_some hP
  obtain ⟨n', m₀', rule', most', m', hnew', -, -, hm', rfl⟩ :=
    Recommender.trail_getElem?_eq_some hP'
  obtain ⟨metric, negatives, hstart⟩ := Recommender.newModel_resampled hr hr' hs hnew hnew'
  obtain ⟨rfl, hstart⟩ := Sigma.mk.inj hstart
  obtain rfl := eq_of_heq hstart
  have hregistered : (Recommender.registered { t with heldOut := pairs' }
        (m₀.resampled metric negatives id)).state
      = (Recommender.registered { t with heldOut := pairs } m₀).state.resampled metric negatives
          id :=
    congrArg Outcome.state (Recommender.registered_resampled metric negatives t m₀)
  obtain ⟨source, rfl⟩ := Run.trail_resampled ⟨_, hregistered⟩ hm hm'
  rfl

/-- Two fits to the same tables: one ranks, holds out a pair that cannot be scored, and stops
after one sweep, the other measures errors, holds out a pair that can be scored, and may sweep
twice. Both complete a first iteration, with the same parameters. -/
theorem trail_eq_of_validation_mutual :
    letI := Spelling.silent
    let r : Recommender ℝ := .ofConfig (Config.ones .auc 1)
    let r' : Recommender ℝ := .ofConfig (Config.ones .objective 2)
    ∃ P, (r.trail Training.mutual)[0]? = some P ∧
      (r'.trail { Training.mutual with heldOut := [(.text "v", .text "a")] })[0]? = some P := by
  let _ := Spelling.silent
  intro r r'
  have hu : Training.mutual.userItems.Distinct := by decide
  have hi : Training.mutual.itemUsers.Distinct := by decide
  obtain ⟨rule, hsched⟩ := schedule_ones .auc 1
  obtain ⟨rule', hsched'⟩ := schedule_ones .objective 2
  obtain ⟨P, hP⟩ := Recommender.exists_trail_zero hsched (fitTables_ones .auc 1 rfl
    (t := Training.mutual) hu hi Training.transposed_mutual Training.symmetric_mutual)
  obtain ⟨P', hP'⟩ := Recommender.exists_trail_zero hsched' (fitTables_ones .objective 2 rfl
    (t := { Training.mutual with heldOut := [(.text "v", .text "a")] }) hu hi
    Training.transposed_mutual Training.symmetric_mutual)
  have hagree : ∀ p, p ∉ Hyperparameter.validating →
      Settings.ones .auc 1 p = Settings.ones .objective 2 p := by
    intro p hp
    cases p <;> first | rfl | exact absurd (by decide) hp
  have heq : P = P' := trail_eq_of_validation (ofSettings_ones .auc 1 le_rfl)
    (ofSettings_ones .objective 2 one_le_two) hagree Training.mutual _ _ 0 hP hP'
  exact ⟨P, hP, heq ▸ hP'⟩

end CoEmbed
