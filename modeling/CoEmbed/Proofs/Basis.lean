import CoEmbed.Model.Validation
import CoEmbed.Proofs.Exact.Solvable
import CoEmbed.Proofs.Exact.Turn
import CoEmbed.Proofs.Objective.Loss

/-!
# The Latent Basis is Arbitrary

The vectors of a model have no basis of their own: where all of them are multiplied by one
orthogonal matrix, everything that is done to the model does the same to the other one, and nothing
that is read from it changes.

* `Model.turned` — the model with all of its vectors in the turned basis.
* `Model.mirrored_sweepUser`, `Model.mirrored_sweepItem` — what a row of a sweep does to it.
* `Model.mirrored_perform`, `Model.rowsPassed_turned` — a sweep does the same, or fails at the same
  row.
* `Model.validate_turned`, `Model.loss_turned` — what is read from it is the same.
* `basis_is_arbitrary` — after any sequence of sweeps.

## Counter convention

The rows that a sweep gets through are counted without the one that it fails at.
-/

open Matrix

namespace CoEmbed

variable {n : ℕ}

namespace Model

/-- The model with **all of its vectors** in the turned basis. -/
noncomputable def turned (Q : orthogonalGroup (Fin n) ℝ) (m : Model ℝ n) : Model ℝ n :=
  { m with theta := m.theta.turned Q, beta := m.beta.turned Q, gamma := m.gamma.turned Q }

/-- How many rows a sweep **gets through** before it fails or comes to its end. -/
noncomputable def rowsPassed (m : Model ℝ n) : Sweep → ℕ
  | .users userItems => Outcome.passed
      (sweepUser (m.beta.background m.hyper.unobserved m.hyper.ridgeTheta)) m userItems.entries
  | .items itemUsers rows => Outcome.passed
      (sweepItem (m.theta.background m.hyper.unobserved m.hyper.ridgeBeta) rows) m
      itemUsers.entries

/-! ### What a sweep does to it -/

section

variable {Q : orthogonalGroup (Fin n) ℝ} {background background' : Mat ℝ n n}

@[simp] theorem theta_turned (m : Model ℝ n) : (m.turned Q).theta = m.theta.turned Q := rfl

@[simp] theorem beta_turned (m : Model ℝ n) : (m.turned Q).beta = m.beta.turned Q := rfl

@[simp] theorem gamma_turned (m : Model ℝ n) : (m.turned Q).gamma = m.gamma.turned Q := rfl

theorem turned_setTheta (m : Model ℝ n) (u : Key) (v : Vec ℝ n) :
    (m.setTheta u v).turned Q = (m.turned Q).setTheta u (v.turned Q) := by
  rw [turned, setTheta, Factors.turned_insert]
  rfl

theorem turned_setBeta (m : Model ℝ n) (i : Key) (v : Vec ℝ n) :
    (m.setBeta i v).turned Q = (m.turned Q).setBeta i (v.turned Q) := by
  rw [turned, setBeta, Factors.turned_insert]
  rfl

theorem turned_setGamma (m : Model ℝ n) (i : Key) (v : Vec ℝ n) :
    (m.setGamma i v).turned Q = (m.turned Q).setGamma i (v.turned Q) := by
  rw [turned, setGamma, Factors.turned_insert]
  rfl

/-- Counting looks at **keys** alone. -/
theorem countRow_turned (m : Model ℝ n) (total trainable skipped : Counted) (ks : List Key)
    (W : Factors ℝ n) :
    (m.turned Q).countRow total trainable skipped ks (W.turned Q)
      = (m.countRow total trainable skipped ks W).turned Q := by
  simp only [countRow, Factors.mem_turned]
  rfl

/-- The row of a **user**. -/
theorem mirrored_sweepUser (h : Mat.Turns Q background background') (m : Model ℝ n)
    (row : Key × List Key) :
    Outcome.Mirrored (turned Q) (sweepUser background m row)
      (sweepUser background' (m.turned Q) row) := by
  have hcount := countRow_turned (Q := Q) m .thetaTotal .thetaTrainable .skippedItems row.2 m.beta
  rw [sweepUser_eq_writing, sweepUser_eq_writing]
  refine .ite (m.theta.mem_turned Q) ?_ (.of_map rfl)
  rw [beta_turned, hcount]
  exact .writing (mirrored_newTheta Q h row.2 m.beta _ _) _ fun v => (turned_setTheta _ _ v).symm

theorem mirrored_updateBeta (h : Mat.Turns Q background background') (m : Model ℝ n) (item : Key)
    (raters : List Key) (row : Row ℝ) :
    Outcome.Mirrored (turned Q) (updateBeta background m item raters row)
      (updateBeta background' (m.turned Q) item raters row) := by
  rw [updateBeta_eq_writing, updateBeta_eq_writing]
  exact .writing (mirrored_newBeta Q h item raters row m.theta m.gamma m.seenBetaBias
    m.seenGammaBias _ _ m.globalBias) m fun v => (turned_setBeta m item v).symm

theorem mirrored_updateGamma (m : Model ℝ n) (item : Key) (row : Row ℝ) :
    Outcome.Mirrored (turned Q) (updateGamma m item row) (updateGamma (m.turned Q) item row) := by
  rw [updateGamma_eq_writing, updateGamma_eq_writing]
  refine .writing (mirrored_newGamma Q item row m.beta m.seenBetaBias m.seenGammaBias
    m.hyper.ridgeGamma m.globalBias) m fun o => ?_
  cases o with
  | none => rfl
  | some v => exact (turned_setGamma m item v).symm

/-- The **biases** are the same in both. -/
theorem updateBiases_turned (m : Model ℝ n) (item : Key) (row : Row ℝ) :
    updateBiases (m.turned Q) item row = (updateBiases m item row).map (turned Q) := by
  rw [updateBiases_eq_writing, updateBiases_eq_writing]
  refine Outcome.map_bind ?_ fun m => ?_
  · rw [beta_turned, gamma_turned, newBias_turned]
    exact Outcome.map_writing (fun o => by cases o <;> rfl) _
  · rw [beta_turned, gamma_turned, newBias_turned]
    exact Outcome.map_writing (fun o => by cases o <;> rfl) _

/-- So is the **global bias**. -/
theorem updateGlobal_turned (m : Model ℝ n) (items : List Key) (rows : Table Key (Row ℝ)) :
    updateGlobal (m.turned Q) items rows = (updateGlobal m items rows).map (turned Q) := by
  rw [updateGlobal_eq_writing, updateGlobal_eq_writing, beta_turned, gamma_turned,
    newGlobalBias_turned]
  exact Outcome.map_ite Iff.rfl (Outcome.map_writing (fun o => by cases o <;> rfl) _) rfl

/-- The row of an **item**. -/
theorem mirrored_sweepItem (h : Mat.Turns Q background background') (rows : Table Key (Row ℝ))
    (m : Model ℝ n) (row : Key × List Key) :
    Outcome.Mirrored (turned Q) (sweepItem background rows m row)
      (sweepItem background' rows (m.turned Q) row) := by
  let neighbors := (rows.get? row.1).getD []
  let counted := m.countRow .betaTotal .betaTrainable .skippedUsers row.2 m.theta
  have hcount : (m.turned Q).countRow .betaTotal .betaTrainable .skippedUsers row.2
      (m.turned Q).theta = counted.turned Q := countRow_turned m _ _ _ row.2 m.theta
  have hskipped : (neighbors.filter fun e => decide (e.1 ∉ (counted.turned Q).gamma))
      = neighbors.filter fun e => decide (e.1 ∉ counted.gamma) := by
    simp only [gamma_turned, Factors.mem_turned]
  rw [sweepItem, sweepItem]
  refine .ite (m.beta.mem_turned Q) (.bind (.bind ?_ fun m => ?_) fun m => ?_) (.of_map rfl)
  · rw [hcount, hskipped]
    exact mirrored_updateBeta h _ row.1 row.2 neighbors
  · exact mirrored_updateGamma m row.1 neighbors
  · exact .ite Iff.rfl (.of_map (updateBiases_turned m row.1 neighbors)) (.of_map rfl)

end

variable (Q : orthogonalGroup (Fin n) ℝ)

theorem mirrored_updateUsers (m : Model ℝ n) (userItems : Table Key (List Key)) :
    Outcome.Mirrored (turned Q) (m.updateUsers userItems)
      ((m.turned Q).updateUsers userItems) := by
  have hback := m.beta.turns_background Q m.hyper.unobserved m.hyper.ridgeTheta
  rw [updateUsers, updateUsers]
  refine .bind (.each (mirrored_sweepUser hback) m userItems.entries) fun m => .of_map ?_
  simp only [strangers, theta_turned, Factors.mem_turned]
  rfl

theorem mirrored_updateItems (m : Model ℝ n) (itemUsers : Table Key (List Key))
    (rows : Table Key (Row ℝ)) :
    Outcome.Mirrored (turned Q) (m.updateItems itemUsers rows)
      ((m.turned Q).updateItems itemUsers rows) := by
  have hback := m.theta.turns_background Q m.hyper.unobserved m.hyper.ridgeBeta
  rw [updateItems, updateItems]
  refine .bind (.bind (.each (mirrored_sweepItem hback rows) m itemUsers.entries) fun m =>
    .of_map (updateGlobal_turned m _ rows)) fun m => .of_map ?_
  simp only [strangers, beta_turned, Factors.mem_turned]
  rfl

/-- A **whole sweep** does the same in the turned basis, or fails in both. -/
theorem mirrored_perform (m : Model ℝ n) (s : Sweep) :
    Outcome.Mirrored (turned Q) (m.perform s) ((m.turned Q).perform s) := by
  cases s with
  | users userItems => exact mirrored_updateUsers Q m userItems
  | items itemUsers rows => exact mirrored_updateItems Q m itemUsers rows

/-- A sweep that fails does so **at the same row** in the turned basis. -/
theorem rowsPassed_turned (m : Model ℝ n) (s : Sweep) :
    (m.turned Q).rowsPassed s = m.rowsPassed s := by
  cases s with
  | users userItems =>
      exact Outcome.passed_eq (mirrored_sweepUser (m.beta.turns_background Q _ _)) m _
  | items itemUsers rows =>
      exact Outcome.passed_eq (mirrored_sweepItem (m.theta.turns_background Q _ _) rows) m _

/-! ### What is read from it -/

/-- A **score** is an inner product. -/
theorem predict_turned (m : Model ℝ n) (user item : Key) :
    (m.turned Q).predict user item = m.predict user item := by
  rw [predict, predict, theta_turned, beta_turned, Factors.get?_turned, Factors.get?_turned]
  cases m.theta.get? user with
  | none => rfl
  | some u =>
      cases m.beta.get? item with
      | none => rfl
      | some v => exact congrArg some (Vec.dot_turned Q u v)

theorem scores_turned (m : Model ℝ n) (user : Vec ℝ n) (items : List Key) :
    (m.turned Q).scores (user.turned Q) items = m.scores user items := by
  rw [scores, scores]
  refine List.filterMap_congr fun i _ => ?_
  rw [beta_turned, Factors.get?_turned, Option.map_map]
  exact congrArg (fun g => (m.beta.get? i).map g) (funext fun v => Vec.dot_turned Q user v)

/-- The items that a pair is compared with are drawn **by their keys**. -/
theorem negativesFor_turned [Machine] (m : Model ℝ n) (user item : Key) :
    (m.turned Q).negativesFor user item = m.negativesFor user item := by
  rw [negativesFor, negativesFor, unseen, unseen, beta_turned, Factors.keys_turned]
  rfl

/-- A **validation** draws the same items, and has the same loss. -/
theorem validate_turned [Machine] (m : Model ℝ n) (user item : Key) :
    (m.turned Q).validate user item = m.validate user item := by
  rw [validate, validate, theta_turned, beta_turned, Factors.get?_turned, Factors.get?_turned]
  cases m.theta.get? user with
  | none => rfl
  | some u =>
      cases m.beta.get? item with
      | none => rfl
      | some v =>
          simp only [Option.map_some, Vec.dot_turned, negativesFor_turned, rankLoss, scores_turned]
          rfl

/-- The error of **one context** is a sum over inner products. -/
theorem sliceLoss_turned (v : Vec ℝ n) (W : Factors ℝ n) (features : List (Feature ℝ))
    (c₀ c₁ : ℝ) :
    sliceLoss (v.turned Q) (W.turned Q) features c₀ c₁ = sliceLoss v W features c₀ c₁ := by
  simp only [sliceLoss_eq_sum, Factors.domain_turned, Factors.vectorAt_turned, Vec.coords_turned,
    dotProduct_turn]

/-- So is the error of the **preferences**, over the contexts of either side. -/
theorem preferenceLoss_turned (m : Model ℝ n) (samples : List (Sample ℝ)) :
    (m.turned Q).preferenceLoss samples = m.preferenceLoss samples := by
  rw [preferenceLoss, preferenceLoss, CoEmbed.preferenceLoss, CoEmbed.preferenceLoss]
  refine congrArg (fun step => List.foldlM step 0 samples) (funext fun loss => funext fun s => ?_)
  cases s with
  | foreign t => rfl
  | user k features =>
      dsimp only
      rw [theta_turned, beta_turned, Factors.get?_turned, Factors.size_turned]
      cases m.theta.get? k with
      | none => rfl
      | some v =>
          simp only [Option.map_some, sliceLoss_turned]
          rfl
  | item k features row =>
      dsimp only
      rw [theta_turned, beta_turned, Factors.get?_turned, Factors.size_turned]
      cases m.beta.get? k with
      | none => rfl
      | some v =>
          simp only [Option.map_some, sliceLoss_turned]
          rfl

/-- So is the error of a **row of neighbours**. -/
theorem rowLoss_turned (i : Key) (v : Vec ℝ n) (row : Row ℝ) (gamma : Factors ℝ n)
    (betaBias gammaBias : Option (Table Key (Bias ℝ))) (globalBias loss : ℝ) :
    (rowLoss i (v.turned Q) row (gamma.turned Q) betaBias gammaBias globalBias loss :
        Except Fault ℝ)
      = rowLoss i v row gamma betaBias gammaBias globalBias loss := by
  simp only [rowLoss_eq, Factors.domain_turned, Factors.vectorAt_turned, Vec.coords_turned,
    dotProduct_turn]

/-- So is the error of the **neighbours' weights**. -/
theorem neighborLoss_turned (m : Model ℝ n) (samples : List (Sample ℝ)) :
    (m.turned Q).neighborLoss samples = m.neighborLoss samples := by
  rw [neighborLoss, neighborLoss, CoEmbed.neighborLoss, CoEmbed.neighborLoss]
  refine congrArg (fun step => List.foldlM step 0 samples) (funext fun loss => funext fun s => ?_)
  cases s with
  | foreign t => rfl
  | user k features => rfl
  | item k features row =>
      dsimp only
      rw [beta_turned, gamma_turned, Factors.get?_turned]
      cases m.beta.get? k with
      | none => rfl
      | some v => exact rowLoss_turned Q k v _ m.gamma m.seenBetaBias m.seenGammaBias _ loss

/-- The **ridges** are sums over squared lengths. -/
theorem ridgeLoss_turned (m : Model ℝ n) : (m.turned Q).ridgeLoss = m.ridgeLoss := by
  rw [ridgeLoss, ridgeLoss]
  simp only [CoEmbed.ridgeLoss_eq, theta_turned, beta_turned, gamma_turned, Factors.domain_turned,
    Factors.vectorAt_turned, dotProduct_turn]
  rfl

/-- The **loss** is the same, whatever the samples are. -/
theorem loss_turned (m : Model ℝ n) (samples : List (Sample ℝ)) :
    (m.turned Q).loss samples = m.loss samples := by
  rw [loss, loss]
  simp only [preferenceLoss_turned, neighborLoss_turned, ridgeLoss_turned]

end Model

/-! ### Whole runs -/

/-- **The latent basis is arbitrary**: sweeps over any tables, from a model whose vectors are all
turned, leave the turned vectors and the same biases. After any of them the next sweep does the same
as well, or fails at the same row with a fault of the same kind; scores, validations, losses and the
best values of the biases are the same. -/
theorem basis_is_arbitrary [Machine] (Q : orthogonalGroup (Fin n) ℝ) (m : Model ℝ n)
    (sweeps : List Sweep) :
    let m' := m.swept sweeps
    (m.turned Q).swept sweeps = m'.turned Q ∧
      (∀ s, Outcome.Mirrored (Model.turned Q) (m'.perform s) ((m'.turned Q).perform s) ∧
        (m'.turned Q).rowsPassed s = m'.rowsPassed s) ∧
      (∀ user item, (m'.turned Q).predict user item = m'.predict user item ∧
        (m'.turned Q).validate user item = m'.validate user item) ∧
      (∀ samples : List (Sample ℝ), (m'.turned Q).loss samples = m'.loss samples) ∧
      (∀ item (row : Row ℝ) bias globalBias,
        newBias item row (m'.turned Q).beta (m'.turned Q).gamma bias globalBias
            = newBias item row m'.beta m'.gamma bias globalBias ∧
          newBias item row (m'.turned Q).gamma (m'.turned Q).beta bias globalBias
            = newBias item row m'.gamma m'.beta bias globalBias) ∧
      ∀ items (rows : Table Key (Row ℝ)) betaBias gammaBias,
        newGlobalBias items rows (m'.turned Q).beta (m'.turned Q).gamma betaBias gammaBias
          = newGlobalBias items rows m'.beta m'.gamma betaBias gammaBias := by
  intro m'
  have hrun : (m.turned Q).swept (sweeps.map id) = m'.turned Q :=
    Model.swept_map (fun m s => (m.mirrored_perform Q s).state) m sweeps
  rw [List.map_id] at hrun
  refine ⟨hrun, fun s => ⟨m'.mirrored_perform Q s, m'.rowsPassed_turned Q s⟩,
    fun user item => ⟨m'.predict_turned Q user item, m'.validate_turned Q user item⟩,
    m'.loss_turned Q, fun item row bias globalBias => ⟨?_, ?_⟩, fun items rows => ?_⟩
  · exact newBias_turned Q item row m'.beta m'.gamma bias globalBias
  · exact newBias_turned Q item row m'.gamma m'.beta bias globalBias
  · exact newGlobalBias_turned Q items rows m'.beta m'.gamma

end CoEmbed
