import CoEmbed.Proofs.Objective.Fit
import CoEmbed.Proofs.Path
import CoEmbed.Proofs.Validation

/-!
# The Losses of a Run

Where no held-out pair can be scored, the loss on the training data is what a run records after
each iteration. The iterations never raise it, so the recorded losses never rise.

* `Run.validate_of_not_scorable` — what a validation records if no pair can be scored.
* `Training.recorded_strictMono` — for a smaller loss a smaller average is recorded.
* `Run.Recorded`, `Run.recorded_step` — the invariant of a run.
* `Recommender.history_pairwise` — the losses that a fit records do not rise.
* `Model.iterate_single`, `history_single` — with one user and one item, each iteration lowers the
  loss.
* `sweeps_do_not_raise_loss` — sweeps do not raise the loss, and so the losses of a run do not
  rise.
-/

open Matrix

namespace CoEmbed

variable {n : ℕ}

namespace Run

variable {t : Training ℝ}

/-- If no pair can be scored, a validation records **the loss on the training data**. -/
theorem validate_of_not_scorable [Machine] {r : Run ℝ n} (hm : r.model.Covers t)
    (hr : r.model.Remembers t) (hp : ∀ p ∈ t.heldOut, ¬ t.Scorable r.model.hyper.metric p)
    (hf : (validate t r).fault = none) :
    (validate t r).state.1.progress = { r.progress with
        current := r.progress.current + t.objective r.model.hyper r.model.point } ∧
      (validate t r).state.2 = t.size := by
  rw [validate] at hf ⊢
  obtain ⟨heach, hlast⟩ := Outcome.bind_done_iff.1 hf
  have hpairs := Outcome.each_prefix (fun _ s => s.2 = 0 ∧ s.1.progress = r.progress ∧
    ∃ source, s.1.model = r.model.withSource source) ⟨rfl, rfl, _, rfl⟩ heach ?_
  · obtain ⟨hzero, hprogress, source, hmodel⟩ := hpairs
    rw [Outcome.bind_of_done heach]
    have hloss : (Outcome.each validatePair (r, 0) t.heldOut).state.1.model.loss t.samples
        = .ok (t.objective r.model.hyper r.model.point) := by
      rw [hmodel]
      exact Model.loss_eq _ (hm.of_frame (Model.Frame.withSource r.model source))
    simp only [hzero, ne_eq, not_true_eq_false, if_false, hloss, report, Progress.report,
      Scalar.exceptional?_real, hprogress]
    exact ⟨rfl, trivial⟩
  · rintro past p s hmem ⟨hzero, hprogress, source, hmodel⟩ hdone
    rcases validatePair_of_done hdone with ⟨x, hx, -⟩ | ⟨-, hstate⟩
    · rw [hmodel] at hx
      exact absurd hx (Model.validate_of_not_scorable (m := r.model.withSource source)
        (hm.of_frame (Model.Frame.withSource r.model source)) hr (hp p hmem) x)
    · rw [hstate, hmodel]
      exact ⟨hzero, hprogress, _, rfl⟩

end Run

/-- What is recorded for a **loss on the training data**: its average over all pairs. -/
noncomputable def Training.recorded (t : Training ℝ) (loss : ℝ) : ℝ :=
  (Progress.mk loss none 0 []).average t.size

/-- For a smaller loss a **smaller average** is recorded. -/
theorem Training.recorded_strictMono (t : Training ℝ) : StrictMono t.recorded := by
  intro x y h
  rw [recorded, recorded, Progress.average, Progress.average]
  by_cases hi : (t.size : ℤ) ≤ 0
  · rwa [if_pos hi, if_pos hi]
  · rw [if_neg hi, if_neg hi, Scalar.ofInt_real]
    have hpos : (0 : ℝ) < (t.size : ℤ) := Int.cast_pos.2 (not_le.1 hi)
    exact div_lt_div_of_pos_right h hpos

namespace Run

variable {t : Training ℝ}

/-- If no pair can be scored, a completed step records **the loss that its iteration has
left**. -/
theorem step_history_of_not_scorable [Machine] {rule : StopRule ℝ} {r : Run ℝ n}
    (hm : (swept t r).model.Covers t) (hr : (swept t r).model.Remembers t)
    (hp : ∀ p ∈ t.heldOut, ¬ t.Scorable (swept t r).model.hyper.metric p)
    (hf : (step t rule r).fault = none) :
    (step t rule r).state.1.progress.history = r.progress.history
      ++ [t.recorded (t.objective (swept t r).model.hyper (swept t r).model.point)] := by
  obtain ⟨hprogress, hsize⟩ := validate_of_not_scorable hm hr hp (validate_done_of_step hf)
  have hzero : (swept t r).progress.current = 0 := rfl
  have hrecorded : recorded t r
      = t.recorded (t.objective (swept t r).model.hyper (swept t r).model.point) := by
    rw [recorded, hprogress, hsize, hzero, zero_add]
    rfl
  rw [(step_of_done hf).1, hrecorded]

/-- The **first step** of a run is not its last, if there may be more. -/
theorem step_goes_on_of_not_scorable [Machine] {rule : StopRule ℝ} {r : Run ℝ n}
    (hm : (swept t r).model.Covers t) (hr : (swept t r).model.Remembers t)
    (hp : ∀ p ∈ t.heldOut, ¬ t.Scorable (swept t r).model.hyper.metric p)
    (hfirst : r.progress.next.previous = none) (hf : (step t rule r).fault = none) :
    (step t rule r).state.2 = false := by
  obtain ⟨hprogress, -⟩ := validate_of_not_scorable hm hr hp (validate_done_of_step hf)
  have hprevious : (validate t (swept t r)).state.1.progress.previous = none := by
    rw [hprogress]
    exact hfirst
  rcases step_cases t rule r with ⟨f, -, h⟩ | ⟨-, f, -, h⟩ | ⟨-, -, h⟩
  · rw [h] at hf
    cases hf
  · rw [h] at hf
    cases hf
  · rw [h]
    change (validate t (swept t r)).state.1.progress.settled rule = false
    rw [Progress.settled, hprevious]

/-- What a run keeps: the model covers its tables, the losses recorded so far **do not rise**,
and none of them lies below what would be recorded for the model as it is. -/
structure Recorded (t : Training ℝ) (r : Run ℝ n) : Prop where
  covers : r.model.Covers t
  remembers : r.model.Remembers t
  globalBias : r.model.hyper.updateGlobalBias = true → r.model.hyper.useBias = true
  unscored : ∀ p ∈ t.heldOut, ¬ t.Scorable r.model.hyper.metric p
  pairwise : r.progress.history.Pairwise (· ≥ ·)
  bound : ∀ x ∈ r.progress.history, t.recorded (t.objective r.model.hyper r.model.point) ≤ x

/-- Before the first step this holds of a model that **covers its tables**. -/
theorem Recorded.start {m : Model ℝ n} (hm : m.Covers t) (hr : m.Remembers t)
    (hg : m.hyper.updateGlobalBias = true → m.hyper.useBias = true)
    (hp : ∀ p ∈ t.heldOut, ¬ t.Scorable m.hyper.metric p) : Recorded t (Run.start m) :=
  ⟨hm, hr, hg, hp, .nil, fun _ hx => absurd hx List.not_mem_nil⟩

section

variable [Machine] {rule : StopRule ℝ} {r : Run ℝ n} (ht : t.Transposed) (hs : t.Symmetric)

include ht hs

/-- What a **completed step** leaves: the parameters of an iteration, and the loss they have. -/
theorem step_of_recorded (h : Recorded t r) (hf : (step t rule r).fault = none) :
    let next := (step t rule r).state
    (r.model.iterate t).fault = none ∧ r.model.Frame next.1.model ∧
      next.1.model.point = (r.model.iterate t).state.point ∧
      next.1.progress.history = r.progress.history
        ++ [t.recorded (t.objective r.model.hyper next.1.model.point)] ∧
      (r.progress.next.previous = none → next.2 = false) := by
  obtain ⟨hiter, ⟨source, hmodel⟩, -⟩ := step_model_of_done hf
  have hframe := (Model.improves_iterate h.covers ht hs h.globalBias hiter).frame
  have hhyper : (swept t r).model.hyper = r.model.hyper := hframe.hyper
  have hcovers : (swept t r).model.Covers t := h.covers.of_frame hframe
  have hremembers : (swept t r).model.Remembers t := h.remembers.of_frame hframe
  have hunscored : ∀ p ∈ t.heldOut, ¬ t.Scorable (swept t r).model.hyper.metric p := by
    rw [hhyper]
    exact h.unscored
  have hpoint : (step t rule r).state.1.model.point = (swept t r).model.point := by
    rw [hmodel]
    rfl
  have hhistory := step_history_of_not_scorable hcovers hremembers hunscored hf
  rw [hhyper, ← hpoint] at hhistory
  refine ⟨hiter, ?_, hpoint, hhistory, fun hfirst =>
    step_goes_on_of_not_scorable hcovers hremembers hunscored hfirst hf⟩
  rw [hmodel]
  exact hframe.trans (Model.Frame.withSource _ source)

/-- Every **completed step** of a run keeps this. -/
theorem recorded_step (h : Recorded t r) (hf : (step t rule r).fault = none) :
    Recorded t (step t rule r).state.1 := by
  obtain ⟨hiter, hframe, hpoint, hhistory, -⟩ := step_of_recorded ht hs h hf
  have himp := Model.improves_iterate h.covers ht hs h.globalBias hiter
  have hbound : ∀ x ∈ r.progress.history,
      t.recorded (t.objective r.model.hyper (step t rule r).state.1.model.point) ≤ x := by
    intro x hx
    rw [hpoint]
    exact (t.recorded_strictMono.monotone himp.settles.le).trans (h.bound x hx)
  refine ⟨h.covers.of_frame hframe, h.remembers.of_frame hframe, ?_, ?_, ?_, ?_⟩
  · rw [hframe.hyper]
    exact h.globalBias
  · rw [hframe.hyper]
    exact h.unscored
  · rw [hhistory]
    refine List.pairwise_append.2 ⟨h.pairwise, List.pairwise_singleton _ _, fun x hx y hy => ?_⟩
    rw [List.mem_singleton.1 hy]
    exact hbound x hx
  · rw [hframe.hyper, hhistory]
    intro x hx
    rcases List.mem_append.1 hx with hx | hx
    · exact hbound x hx
    · exact (List.mem_singleton.1 hx).ge

end

end Run

/-- The losses of a **fit** that goes through do not rise, if no held-out pair can be scored. -/
theorem Recommender.history_pairwise [Machine] [Spelling] {r : Recommender ℝ} {t : Training ℝ}
    (ht : t.Transposed) (hs : t.Symmetric)
    (hp : ∀ metric, Metric.ofSetting (r.config.settings .metric) = .ok metric →
      ∀ p ∈ t.heldOut, ¬ t.Scorable metric p)
    (hf : (r.fitTables t).fault = none) :
    ∃ f, (r.fitTables t).state.fitted = some f ∧ f.history.Pairwise (· ≥ ·) := by
  obtain ⟨n, m, rule, most, hmodel, -, hreg, hloop, hfitted⟩ := fitTables_of_done hf
  refine ⟨_, hfitted, ?_⟩
  obtain ⟨hyper, globalBias, source, rfl, hdesc, -⟩ := newModel_eq_ok hmodel
  obtain ⟨hhyper, hcovers, hremembers⟩ := registered_of_done hreg
  have hstart : Run.Recorded t (Run.start (registered t (Model.empty hyper globalBias source :
      Model ℝ n)).state) :=
    .start hcovers hremembers (by rw [hhyper]; exact hdesc.biased)
      (by rw [hhyper]; exact hp _ hdesc.metric)
  exact (Run.loop_invariant (Run.Recorded t) (fun _ h hdone => Run.recorded_step ht hs h hdone)
    hstart hloop).pairwise

/-! ### A user and an item -/

/-- An item without neighbours has **no bias** to fit. -/
theorem Model.updateBiases_nil (m : Model ℝ n) (i : Key) :
    m.updateBiases i ([] : Row ℝ) = .done m := by
  have hnone : ∀ (own others : Factors ℝ n) b,
      newBias i ([] : Row ℝ) own others b m.globalBias = .ok none := by
    intro own others b
    rw [newBias]
    cases own.get? i <;> rfl
  rw [updateBiases, hnone]
  dsimp only
  rw [hnone]

/-- Without neighbours there is **no global bias** to fit. -/
theorem Model.updateGlobal_empty (m : Model ℝ n) (items : List Key) :
    m.updateGlobal items (Table.empty : Table Key (Row ℝ)) = .done m := by
  have hnone : newGlobalBias items (Table.empty : Table Key (Row ℝ)) m.beta m.gamma
      (some m.betaBias) (some m.gammaBias) = .ok none := by
    rw [newGlobalBias_eq]
    refine congrArg Except.ok (if_pos (List.flatMap_eq_nil_iff.2 fun i _ => ?_))
    exact ite_eq_right_iff.2 fun _ => rfl
  rw [updateGlobal, hnone]
  exact ite_self _

/-- One user and one item, **without anything else**. -/
noncomputable def Training.single : Training ℝ where
  userItems := Table.ofList [(.text "u", [.text "a"])]
  itemUsers := Table.ofList [(.text "a", [.text "u"])]
  rows := Table.empty
  heldOut := []

theorem Training.transposed_single : Training.single.Transposed := by
  change ∀ u ∈ Training.single.userItems.keys, ∀ i ∈ Training.single.itemUsers.keys, _
  decide

theorem Training.symmetric_single : Training.single.Symmetric := fun _ _ _ _ _ => rfl

/-- With confidences and a ridge of one, a system of **one vector** is one equation. -/
theorem eq_of_observedMatrix_single {W : Factors ℝ 1} {k : Key} (hW : W.domain = {k})
    {v : Fin 1 → ℝ} (h : observedMatrix W [k] 1 1 1 *ᵥ v = observedTarget W [k] 1) :
    v 0 * (W.vectorAt k 0 ^ 2 + 1) = W.vectorAt k 0 := by
  have hfirst := congrFun h 0
  simp only [observedMatrix, observedTarget, hW, Finset.sum_singleton, outer, mulVec, dotProduct,
    List.count_singleton_self, vecMulVec_apply, Fin.sum_univ_one, Matrix.add_apply,
    Matrix.smul_apply, one_apply_eq, Pi.smul_apply, smul_eq_mul, Nat.cast_one, sub_self, mul_zero,
    add_zero, one_mul, mul_one] at hfirst
  linarith

/-- What solves two such equations in turn **does not solve the first one again**. -/
theorem ne_of_shrinking {x x' y' x'' : ℝ} (hx : x' * (x ^ 2 + 1) = x) (hne : x ≠ 0)
    (hy : y' * (x' ^ 2 + 1) = x') (hx' : x'' * (y' ^ 2 + 1) = y') : x'' ≠ x' := by
  rintro rfl
  have hx0 : x'' ≠ 0 := by
    rintro rfl
    exact hne (by rw [← hx, zero_mul])
  have hy0 : y' ≠ 0 := by
    rintro rfl
    exact hx0 (by rw [← hy, zero_mul])
  have hsum : x'' * y' * (x'' + y') = 0 := by linear_combination hx' + hy
  rcases mul_eq_zero.1 hsum with hprod | hopposite
  · exact (mul_ne_zero hx0 hy0) hprod
  · have hzero : x'' * (x'' ^ 2 + 2) = 0 := by
      rw [eq_neg_of_add_eq_zero_right hopposite] at hx'
      linear_combination hx'
    exact (mul_ne_zero hx0 (by positivity)) hzero

namespace Model

variable {m : Model ℝ 1}

/-- The vector of the user is the **solution of one equation**. -/
theorem updateUsers_single (hm : m.Covers .single) (h₀ : m.hyper.unobserved = 1)
    (h₁ : m.hyper.observed = 1) (hridge : m.hyper.ridgeTheta = 1)
    (hf : (m.updateUsers Training.single.userItems).fault = none) :
    let q := (m.updateUsers Training.single.userItems).state.point
    q.theta (.text "u") 0 * (m.point.beta (.text "a") 0 ^ 2 + 1) = m.point.beta (.text "a") 0 := by
  have hsweep : m.updateUsers Training.single.userItems
      = ((sweepUser (m.beta.background m.hyper.unobserved m.hyper.ridgeTheta) m
        (.text "u", [.text "a"])).bind .done).bind fun m =>
          .done (m.count .skippedUsers (strangers Training.single.userItems m.theta)) := rfl
  dsimp only
  rw [hsweep] at hf ⊢
  rcases sweepUser_cases (m.beta.background m.hyper.unobserved m.hyper.ridgeTheta) m
    (.text "u", [.text "a"]) with ⟨hno, -⟩ | ⟨-, c, ⟨v, hv, hstep⟩ | ⟨f, -, hstep⟩⟩
  · exact absurd ((hm.theta _).2 (by decide)) hno
  · rw [h₀, h₁, hridge] at hv
    have heq := eq_of_observedMatrix_single hm.domain_beta (newTheta_eq_ok_iff.1 hv).2
    rw [← (Block.theta (.text "u")).get_set m.point v.coords] at heq
    rw [hstep]
    change ((m.withCounters c).setTheta (.text "u") v).point.theta (.text "u") 0 * _ = _
    rw [point_setTheta]
    exact heq
  · rw [hstep] at hf
    cases hf

/-- The vector of the item is the solution of one equation, and **nothing else is fitted**. -/
theorem updateItems_single (hm : m.Covers .single) (h₀ : m.hyper.unobserved = 1)
    (h₁ : m.hyper.observed = 1) (hridge : m.hyper.ridgeBeta = 1)
    (hf : (m.updateItems Training.single.itemUsers Training.single.rows).fault = none) :
    let q := (m.updateItems Training.single.itemUsers Training.single.rows).state.point
    q.beta (.text "a") 0 * (m.point.theta (.text "u") 0 ^ 2 + 1) = m.point.theta (.text "u") 0 ∧
      q.theta = m.point.theta := by
  let background := m.theta.background m.hyper.unobserved m.hyper.ridgeBeta
  have hsweep : m.updateItems Training.single.itemUsers Training.single.rows
      = (((sweepItem background Training.single.rows m (.text "a", [.text "u"])).bind
        .done).bind fun m => m.updateGlobal Training.single.itemUsers.keys Table.empty).bind
          fun m => .done (m.count .skippedItems (strangers Training.single.itemUsers m.beta)) := rfl
  dsimp only
  rw [hsweep] at hf ⊢
  rcases sweepItem_cases background Training.single.rows m (.text "a", [.text "u"]) with
    ⟨hno, -⟩ | ⟨-, c, hstep⟩
  · exact absurd ((hm.beta _).2 (by decide)) hno
  have hrow : (Training.single.rows.get? (.text "a")).getD [] = [] := rfl
  rw [hrow] at hstep
  rcases updateBeta_cases background (m.withCounters c) (.text "a") [.text "u"] ([] : Row ℝ) with
    ⟨v, hv, hbeta⟩ | ⟨f, -, hbeta⟩
  · have hdone : sweepItem background Training.single.rows m (.text "a", [.text "u"])
        = .done ((m.withCounters c).setBeta (.text "a") v) := by
      rw [hstep, hbeta]
      change (if _ then updateBiases _ _ _ else _) = _
      rw [updateBiases_nil]
      exact ite_self _
    have hsystem := (newBeta_eq_ok_iff.1 hv).2
    change (observedMatrix m.theta [.text "u"] m.hyper.unobserved m.hyper.observed
      m.hyper.ridgeBeta + 0) *ᵥ v.coords = observedTarget m.theta _ m.hyper.observed + 0 at hsystem
    rw [add_zero, add_zero, h₀, h₁, hridge] at hsystem
    have heq := eq_of_observedMatrix_single hm.domain_theta hsystem
    rw [← (Block.beta (.text "a")).get_set m.point v.coords] at heq
    rw [hdone]
    change ((updateGlobal _ _ _).bind _).state.point.beta (.text "a") 0 * _ = _ ∧
      ((updateGlobal _ _ _).bind _).state.point.theta = _
    rw [updateGlobal_empty]
    refine ⟨?_, rfl⟩
    change ((m.withCounters c).setBeta (.text "a") v).point.beta (.text "a") 0 * _ = _
    rw [point_setBeta]
    exact heq
  · rw [hstep, hbeta] at hf
    cases hf

end Model

namespace Model

variable {m m' : Model ℝ 1} {metric : Metric}

/-- An **iteration** solves one equation after the other. -/
theorem iterate_single (hm : m.Covers .single) (hones : m.hyper = Hyper.ones metric) :
    (m.iterate .single).fault = none ∧
      let p := m.point
      let q := (m.iterate .single).state.point
      q.theta (.text "u") 0 * (p.beta (.text "a") 0 ^ 2 + 1) = p.beta (.text "a") 0 ∧
        q.beta (.text "a") 0 * (q.theta (.text "u") 0 ^ 2 + 1) = q.theta (.text "u") 0 := by
  have hf := iterate_done (t := .single) (hones ▸ Hyper.positive_ones metric) (by decide)
    (by decide)
  obtain ⟨husers, hitems⟩ := Outcome.bind_done_iff.1 hf
  have hframe := (improves_updateUsers hm husers).frame
  have hones' := hframe.hyper.trans hones
  have hv := updateUsers_single hm (by rw [hones]; rfl) (by rw [hones]; rfl) (by rw [hones]; rfl)
    husers
  obtain ⟨hw, htheta⟩ := updateItems_single (hm.of_frame hframe) (by rw [hones']; rfl)
    (by rw [hones']; rfl) (by rw [hones']; rfl) hitems
  dsimp only at hv hw
  rw [← htheta] at hv hw
  refine ⟨hf, ?_⟩
  rw [iterate, Outcome.bind_of_done husers]
  exact ⟨hv, hw⟩

/-- One more iteration **lowers the objective again**, if the item's vector was not zero at
first. -/
theorem objective_iterate_single_lt (hm : m.Covers .single) (hones : m.hyper = Hyper.ones metric)
    (hne : m.point.beta (.text "a") 0 ≠ 0) (hframe : m.Frame m')
    (hpoint : m'.point = (m.iterate .single).state.point) :
    Training.single.objective m.hyper (m'.iterate .single).state.point
      < Training.single.objective m.hyper (m.iterate .single).state.point := by
  have hones' := hframe.hyper.trans hones
  obtain ⟨-, hv, hw⟩ := iterate_single hm hones
  obtain ⟨hf, hv', -⟩ := iterate_single (hm.of_frame hframe) hones'
  have himp := improves_iterate (hm.of_frame hframe) Training.transposed_single
    Training.symmetric_single (fun _ => by rw [hones']; rfl) hf
  rw [hpoint] at hv'
  rw [← hpoint, ← hframe.hyper]
  refine himp.settles.lt fun hsame => ne_of_shrinking hv hne hw hv' ?_
  rw [hsame, hpoint]

end Model

/-- The first vector of the item is **what the generator has drawn**. -/
theorem beta_registered_single [Spelling] (metric : Metric) :
    (Recommender.registered Training.single (Model.ones metric)).state.point.beta (.text "a") 0
      = (Hyper.ones metric).init.spread * (⟨UInt64.ofNat 1, 12⟩ : Source).bell 0 := by
  let init := (Hyper.ones metric).init
  have hdraw : ∀ s : Source, init.draw 1 s
      = ((s.bells 1).1.map fun x => init.spread * x, s.advance 12) := fun _ => rfl
  have husers : (((Model.ones metric).withCounters .complete).registerHistories
      Training.single.userItems).fault = none := by
    rw [Model.registerHistories, Model.registerUsers, Model.canRegister_real, if_pos rfl]
    rfl
  have hbeta : (Recommender.registered Training.single (Model.ones metric)).state.beta
      = Table.ofList [(.text "a", (init.draw 1 (init.draw 1 ⟨UInt64.ofNat 1, 0⟩).2).1)] := by
    rw [Recommender.registered, Outcome.bind_of_done husers, Model.registerItems,
      Model.canRegister_real, Model.canRegister_real, Model.registerHistories, Model.registerUsers,
      Model.canRegister_real, if_pos rfl]
    rfl
  change Factors.vectorAt (Recommender.registered Training.single (Model.ones metric)).state.beta
    (.text "a") 0 = _
  rw [hbeta, Factors.vectorAt_of_get? rfl, hdraw, hdraw]
  simp only [Vec.coords, Vec.entry, Source.bells, Fin.getElem_fin, Vector.getElem_map,
    Vector.getElem_ofFn]
  rfl

/-- What it has drawn is **not zero**. -/
theorem bell_ne_zero : ((⟨UInt64.ofNat 1, 12⟩ : Source).bell 0 : ℝ) ≠ 0 := by
  let s : Source := ⟨UInt64.ofNat 1, 12⟩
  have hsum : ∀ (places : List ℕ) (x : ℝ),
      places.foldl (fun t j => t + unitOf (s.wordAt (0 + j))) x
        = x + ((places.map fun j => (s.wordAt j >>> 11).toNat).sum : ℕ) / (2 ^ 53 : ℕ) := by
    intro places
    induction places with
    | nil =>
        intro x
        rw [List.foldl_nil, List.map_nil, List.sum_nil, Nat.cast_zero, zero_div, add_zero]
    | cons j places ih =>
        intro x
        rw [List.foldl_cons, ih, List.map_cons, List.sum_cons, Nat.cast_add, add_div, ← add_assoc,
          zero_add]
        rfl
  have hne : ((List.range 12).map fun j => (s.wordAt j >>> 11).toNat).sum ≠ 6 * 2 ^ 53 := by
    decide +kernel
  rw [Source.bell, hsum, zero_add, sub_ne_zero, Scalar.ofNat_real, Ne, div_eq_iff (by positivity)]
  exact_mod_cast hne

/-- Two steps of a run record two losses, the second of them **below the first**. -/
theorem Run.history_loop_single {rule : StopRule ℝ} {r : Run ℝ 1} {metric : Metric}
    (hsound : Sound .single r) (h : Recorded .single r) (hones : r.model.hyper = Hyper.ones metric)
    (hfirst : r.progress.next.previous = none) (hnew : r.progress.history = [])
    (hne : r.model.point.beta (.text "a") 0 ≠ 0) :
    ∃ x y, (loop .single rule 2 r).state.progress.history = [x, y] ∧ y < x := by
  have hu : Training.single.userItems.Distinct := by decide
  have hi : Training.single.itemUsers.Distinct := by decide
  have ht := Training.transposed_single
  have hs := Training.symmetric_single
  obtain ⟨hdone, hsound'⟩ : (step .single rule r).fault = none
      ∧ Sound .single (step .single rule r).state.1 := sound_step hu hi ht hs hsound
  obtain ⟨hdone', -⟩ : (step .single rule (step .single rule r).state.1).fault = none ∧ _ :=
    sound_step hu hi ht hs hsound'
  obtain ⟨-, hframe, hpoint, hhistory, hgoes⟩ := step_of_recorded ht hs h hdone
  obtain ⟨-, -, hpoint', hhistory', -⟩ :=
    step_of_recorded ht hs (recorded_step ht hs h hdone) hdone'
  have hlt := Model.objective_iterate_single_lt h.covers hones hne hframe hpoint
  rw [← hpoint, ← hpoint'] at hlt
  rw [hhistory, hnew, hframe.hyper] at hhistory'
  refine ⟨_, _, ?_, Training.single.recorded_strictMono hlt⟩
  rw [loop, hdone, hgoes hfirst]
  dsimp only
  rw [if_neg Bool.false_ne_true, loop, hdone']
  dsimp only
  split <;> exact hhistory'

/-- A fit that sweeps twice records two losses, the second of them **below the first**. -/
theorem history_single [Spelling] (metric : Metric) :
    ∃ f x y, ((Recommender.ofConfig (Config.ones metric 2)).fitTables .single).state.fitted
      = some f ∧ f.history = [x, y] ∧ y < x := by
  have hu : Training.single.userItems.Distinct := by decide
  have hi : Training.single.itemUsers.Distinct := by decide
  obtain ⟨n, m, rule, most, hmodel, hsched, hreg, -, hfitted⟩ := Recommender.fitTables_of_done
    (fitTables_ones metric 2 rfl hu hi Training.transposed_single Training.symmetric_single)
  obtain ⟨rule', hsched'⟩ := schedule_ones metric 2
  obtain ⟨rfl, rfl⟩ := Prod.mk.inj (Except.ok.inj (hsched.symm.trans hsched'))
  obtain ⟨rfl, hm⟩ := Sigma.mk.inj (Except.ok.inj (hmodel.symm.trans (newModel_ones metric 2)))
  obtain rfl := eq_of_heq hm
  have hregistered : let m := (Recommender.registered Training.single (Model.ones metric)).state
      m.hyper = Hyper.ones metric ∧ m.Covers Training.single ∧ m.Remembers Training.single :=
    Recommender.registered_of_done hreg
  have hne : (Recommender.registered Training.single (Model.ones metric)).state.point.beta
      (.text "a") 0 ≠ 0 := by
    have hspread : (Hyper.ones metric).init.spread = 1 := ite_self _
    rw [beta_registered_single, hspread, one_mul]
    exact bell_ne_zero
  generalize (Recommender.registered Training.single (Model.ones metric)).state = m at *
  obtain ⟨hones, hcovers, hremembers⟩ := hregistered
  have hsound : Run.Sound Training.single (Run.start m) := by
    refine ⟨?_, hcovers, ?_, ?_, ?_⟩ <;> rw [Run.start, hones]
    · exact Hyper.positive_ones metric
    · exact fun _ => rfl
    · exact zero_le_one
    · rfl
  have hrecorded : Run.Recorded Training.single (Run.start m) :=
    .start hcovers hremembers (by rw [hones]; exact fun _ => rfl)
      fun p hp => absurd hp List.not_mem_nil
  obtain ⟨x, y, hhistory, hlt⟩ : ∃ x y,
      (Run.loop .single rule 2 (Run.start m)).state.progress.history = [x, y] ∧ y < x :=
    Run.history_loop_single hsound hrecorded hones rfl rfl hne
  exact ⟨_, x, y, hfitted, hhistory, hlt⟩

/-! ### Training lowers the loss -/

/-- **Training does not raise the loss**: neither a sweep over users nor a sweep over items that
goes through leaves a greater loss on the training data than it found, and if no held-out pair
can be scored, the losses that a fit records do not rise. -/
theorem sweeps_do_not_raise_loss [Machine] [Spelling] (t : Training ℝ) (ht : t.Transposed)
    (hs : t.Symmetric) :
    (∀ {n : ℕ} (m : Model ℝ n), m.Covers t → (m.updateUsers t.userItems).fault = none →
      ∃ before after, m.loss t.samples = .ok before ∧
        (m.updateUsers t.userItems).state.loss t.samples = .ok after ∧ after ≤ before) ∧
    (∀ {n : ℕ} (m : Model ℝ n), m.Covers t →
      (m.hyper.updateGlobalBias = true → m.hyper.useBias = true) →
      (m.updateItems t.itemUsers t.rows).fault = none →
      ∃ before after, m.loss t.samples = .ok before ∧
        (m.updateItems t.itemUsers t.rows).state.loss t.samples = .ok after ∧ after ≤ before) ∧
    ∀ r : Recommender ℝ,
      (∀ metric, Metric.ofSetting (r.config.settings .metric) = .ok metric →
        ∀ p ∈ t.heldOut, ¬ t.Scorable metric p) →
      (r.fitTables t).fault = none →
      ∃ f, (r.fitTables t).state.fitted = some f ∧ f.history.Pairwise (· ≥ ·) := by
  refine ⟨fun m hm hf => ?_, fun m hm hg hf => ?_, fun r hp hf =>
    Recommender.history_pairwise ht hs hp hf⟩
  · have himp := Model.improves_updateUsers hm hf
    refine ⟨_, _, Model.loss_eq m hm, Model.loss_eq _ (hm.of_frame himp.frame), ?_⟩
    rw [himp.frame.hyper]
    exact himp.settles.le
  · have himp := Model.improves_updateItems hm ht hs hg hf
    refine ⟨_, _, Model.loss_eq m hm, Model.loss_eq _ (hm.of_frame himp.frame), ?_⟩
    rw [himp.frame.hyper]
    exact himp.settles.le

/-- Two users, two items that are neighbours, and a held-out pair of a user without a row: both
sweeps leave no greater loss. And a fit to one user and one item goes through, and of the two losses
that it records the second is below the first. -/
theorem sweeps_do_not_raise_loss_mutual :
    letI := Spelling.silent
    let r : Recommender ℝ := .ofConfig (Config.ones .auc 1)
    let r' : Recommender ℝ := .ofConfig (Config.ones .auc 2)
    Training.mutual.Transposed ∧ Training.mutual.Symmetric ∧
      Model.mutual.Covers Training.mutual ∧
      (∃ before after, Model.mutual.loss Training.mutual.samples = .ok before ∧
        (Model.mutual.updateUsers Training.mutual.userItems).state.loss Training.mutual.samples
          = .ok after ∧ after ≤ before) ∧
      (∃ before after, Model.mutual.loss Training.mutual.samples = .ok before ∧
        (Model.mutual.updateItems Training.mutual.itemUsers Training.mutual.rows).state.loss
          Training.mutual.samples = .ok after ∧ after ≤ before) ∧
      (∃ f, (r.fitTables Training.mutual).state.fitted = some f ∧
        f.history.Pairwise (· ≥ ·)) ∧
      Training.single.Transposed ∧ Training.single.Symmetric ∧
      ∃ f x y, (r'.fitTables Training.single).state.fitted = some f ∧
        f.history.Pairwise (· ≥ ·) ∧ f.history = [x, y] ∧ y < x := by
  let _ := Spelling.silent
  intro r r'
  have hpos : Model.mutual.hyper.Positive :=
    ⟨zero_le_one, le_rfl, zero_lt_one, zero_lt_one, zero_lt_one⟩
  have hu : Training.mutual.userItems.Distinct := by decide
  have hi : Training.mutual.itemUsers.Distinct := by decide
  have hghost : Key.text "w" ∉ Training.mutual.userItems := by decide
  obtain ⟨husers, hitems, hfit⟩ := sweeps_do_not_raise_loss Training.mutual
    Training.transposed_mutual Training.symmetric_mutual
  obtain ⟨-, -, hfit'⟩ := sweeps_do_not_raise_loss Training.single
    Training.transposed_single Training.symmetric_single
  refine ⟨Training.transposed_mutual, Training.symmetric_mutual, Model.covers_mutual,
    husers Model.mutual Model.covers_mutual (Model.updateUsers_done hpos hu).1,
    hitems Model.mutual Model.covers_mutual (fun _ => rfl)
      (Model.updateItems_done hpos hi Training.mutual.rows).1, hfit r ?_ ?_,
    Training.transposed_single, Training.symmetric_single, ?_⟩
  · intro metric _ p hp hscore
    rw [List.mem_singleton.1 hp] at hscore
    exact hghost hscore.user
  · exact fitTables_ones .auc 1 rfl hu hi Training.transposed_mutual Training.symmetric_mutual
  · obtain ⟨f, hf, hpairwise⟩ := hfit' r' (fun _ _ p hp => absurd hp List.not_mem_nil)
      (fitTables_ones .auc 2 rfl (by decide) (by decide) Training.transposed_single
        Training.symmetric_single)
    obtain ⟨f', x, y, hf', hhistory, hlt⟩ := history_single .auc
    obtain rfl := Option.some.inj (hf.symm.trans hf')
    exact ⟨f, x, y, hf, hpairwise, hhistory, hlt⟩

end CoEmbed
