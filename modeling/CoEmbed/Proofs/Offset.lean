import CoEmbed.Proofs.Exact.Solvable
import CoEmbed.Proofs.Objective.Loss

/-!
# The Offset of the Weights

Weights have no origin of their own. A weight is read against the global bias wherever a vector, a
bias or a loss is computed from it, so weights that are all raised by one amount, together with the
global bias, lead to the same vectors and biases. The global bias itself is estimated from the
weights, and rises with them.

* `Row.raised`, `Sweep.raised`, `Sample.raised`, `Model.raised` — what is raised by an amount.
* `newBeta_raised`, `newGamma_raised`, `newBias_raised` — what is computed stays the same.
* `newGlobalBias_raised` — the global bias rises.
* `Model.perform_raised` — so a whole sweep does the same to a raised model.
* `Model.loss_raised` — raised samples have the same loss.
* `offset_trades_with_globalBias` — after any sequence of sweeps.

## Sum convention

The weights of a row are raised one by one, also those of neighbours that have no vector, and those
that a row lists twice.
-/

open Matrix

namespace CoEmbed

variable {n : ℕ}

/-! ### What is raised -/

/-- A row with each of its **weights raised**. -/
def Row.raised (d : ℝ) (row : Row ℝ) : Row ℝ := row.map fun e => (e.1, e.2 + d)

/-- The rows of a table, raised. -/
def raisedRows (d : ℝ) (rows : Table Key (Row ℝ)) : Table Key (Row ℝ) :=
  rows.mapValues fun _ => Row.raised d

/-- A sweep over **raised rows**. -/
def Sweep.raised (d : ℝ) : Sweep → Sweep
  | .users userItems => .users userItems
  | .items itemUsers rows => .items itemUsers (raisedRows d rows)

/-- A sample with its **row raised**, if it has one. -/
def Sample.raised (d : ℝ) : Sample ℝ → Sample ℝ
  | .user k features => .user k features
  | .item k features row => .item k features (row.map (Row.raised d))
  | .foreign t => .foreign t

/-- The model with its **global bias raised**, and all else as it is. -/
noncomputable def Model.raised (d : ℝ) (m : Model ℝ n) : Model ℝ n :=
  { m with globalBias := m.globalBias + d }

variable (d : ℝ)

@[simp] theorem Row.map_fst_raised (row : Row ℝ) :
    (Row.raised d row).map Prod.fst = row.map Prod.fst := by
  simp [raised]

@[simp] theorem Row.isEmpty_raised (row : Row ℝ) : (Row.raised d row).isEmpty = row.isEmpty := by
  simp [raised]

/-- The raised row of a key, which is empty if there is none. -/
theorem getD_get?_raisedRows (rows : Table Key (Row ℝ)) (k : Key) :
    ((raisedRows d rows).get? k).getD [] = Row.raised d ((rows.get? k).getD []) := by
  rw [raisedRows, Table.get?_mapValues]
  cases rows.get? k <;> rfl

/-- The samples of raised rows are **the raised samples**. -/
theorem itemSamples_raisedRows (itemUsers : Table Key (List Key)) (rows : Table Key (Row ℝ)) :
    itemSamples itemUsers (raisedRows d rows)
      = (itemSamples itemUsers rows).map (Sample.raised d) := by
  rw [itemSamples, itemSamples, List.map_map]
  refine List.map_congr_left fun e _ => ?_
  rw [Function.comp_apply, raisedRows, Table.get?_mapValues]
  rfl

/-! ### What is computed from a raised row -/

/-- What the biases leave of the weights **rises with the weights**. -/
theorem unexplained_raised (k : Key) (row : Row ℝ) (own other : Option (Table Key (Bias ℝ)))
    (W : Factors ℝ n) :
    (unexplained k (Row.raised d row) own other W : Except Fault (Row ℝ))
      = (unexplained k row own other W).map (Row.raised d) := by
  rw [unexplained_scalars, unexplained_scalars]
  refine congrArg Except.ok ?_
  rw [Row.raised, Row.raised, List.map_map, List.map_map]
  refine List.map_congr_left fun e _ => Prod.ext rfl ?_
  change e.2 + d - _ - _ = e.2 - _ - _ + d
  ring

/-- What the neighbours ask of a vector is **the same** if the global bias rises with the
weights. -/
theorem pull_raised (row : Row ℝ) (W : Factors ℝ n) (globalBias : ℝ) :
    pull (Row.raised d row) W (globalBias + d) = pull row W globalBias := by
  rw [pull, pull, Row.raised, List.foldl_map]
  simp only [add_sub_add_right_eq_sub]

/-- The best vector of an **item** stays the same. -/
theorem newBeta_raised (item : Key) (raters : List Key) (row : Row ℝ) (theta gamma : Factors ℝ n)
    (betaBias gammaBias : Option (Table Key (Bias ℝ))) (background : Mat ℝ n n)
    (c₀ c₁ globalBias : ℝ) :
    newBeta item raters (Row.raised d row) theta gamma betaBias gammaBias background c₀ c₁
        (globalBias + d)
      = newBeta item raters row theta gamma betaBias gammaBias background c₀ c₁ globalBias := by
  rw [newBeta, newBeta, unexplained_raised, Row.isEmpty_raised, Row.map_fst_raised,
    unexplained_scalars]
  change solveSystem _ (Vec.add _ (pull (Row.raised d _) _ _))
    = solveSystem _ (Vec.add _ (pull _ _ _))
  rw [pull_raised]

/-- The best vector of an item **as a neighbour** stays the same. -/
theorem newGamma_raised (item : Key) (row : Row ℝ) (beta : Factors ℝ n)
    (betaBias gammaBias : Option (Table Key (Bias ℝ))) (ridge globalBias : ℝ) :
    newGamma item (Row.raised d row) beta betaBias gammaBias ridge (globalBias + d)
      = newGamma item row beta betaBias gammaBias ridge globalBias := by
  rw [newGamma, newGamma, unexplained_raised, Row.map_fst_raised, unexplained_scalars]
  refine if_congr Iff.rfl rfl ?_
  change Except.map some (solveSystem _ (pull (Row.raised d _) _ _))
    = Except.map some (solveSystem _ (pull _ _ _))
  rw [pull_raised]

/-- What is left of raised weights is left of the weights by a formula that **raises them**. -/
theorem residuals_raised (x : Fin n → ℝ) (row : Row ℝ) (W : Factors ℝ n)
    (rest : ℝ → Key → ℝ → ℝ) :
    residuals x (Row.raised d row) W rest = residuals x row W fun w => rest (w + d) := by
  rw [residuals, residuals, Row.raised, List.filter_map, List.map_map]
  rfl

/-- The best **bias** stays the same: the global bias takes away what was added. -/
theorem newBias_raised (item : Key) (row : Row ℝ) (own others : Factors ℝ n)
    (otherBias : Option (Table Key (Bias ℝ))) (globalBias : ℝ) :
    newBias item (Row.raised d row) own others otherBias (globalBias + d)
      = newBias item row own others otherBias globalBias := by
  have hrest : ∀ (w : ℝ) (j : Key) (p : ℝ), w + d - p - (biasOf otherBias j).scalar
      - (globalBias + d) = w - p - (biasOf otherBias j).scalar - globalBias := fun w j p => by ring
  rw [newBias_eq, newBias_eq, residuals_raised]
  simp only [hrest]

/-- The mean of raised numbers is **the raised mean**. -/
theorem meanOf_raised (rs : List ℝ) : meanOf (rs.map (· + d)) = (meanOf rs).map (· + d) := by
  by_cases h : rs = []
  · rw [h]
    rfl
  · have hlength : (rs.length : ℝ) ≠ 0 := Nat.cast_ne_zero.2 (mt List.length_eq_zero_iff.1 h)
    rw [meanOf, meanOf, if_neg h, if_neg (mt List.map_eq_nil_iff.1 h), List.length_map,
      List.sum_map_add, List.map_id', List.map_const', List.sum_replicate, nsmul_eq_mul, add_div,
      mul_div_cancel_left₀ d hlength]
    rfl

/-- What is left of the weights of an item for the global bias **rises with the weights**. -/
theorem globalResiduals_raised (rows : Table Key (Row ℝ)) (beta gamma : Factors ℝ n)
    (betaBias gammaBias : Option (Table Key (Bias ℝ))) (i : Key) :
    globalResiduals (raisedRows d rows) beta gamma betaBias gammaBias i
      = (globalResiduals rows beta gamma betaBias gammaBias i).map (· + d) := by
  rw [globalResiduals, globalResiduals, getD_get?_raisedRows, residuals_raised]
  by_cases hi : i ∈ beta
  · rw [if_pos hi, if_pos hi, residuals, residuals, List.map_map]
    refine List.map_congr_left fun e _ => ?_
    rw [Function.comp_apply]
    ring
  · rw [if_neg hi, if_neg hi, List.map_nil]

/-- The best **global bias** rises with the weights, whatever the number of pairs that it is taken
over; where there are none it has no estimate. -/
theorem newGlobalBias_raised (items : List Key) (rows : Table Key (Row ℝ))
    (beta gamma : Factors ℝ n) (betaBias gammaBias : Option (Table Key (Bias ℝ))) :
    newGlobalBias items (raisedRows d rows) beta gamma betaBias gammaBias
      = (newGlobalBias items rows beta gamma betaBias gammaBias).map (Option.map (· + d)) := by
  have hall : items.flatMap (globalResiduals (raisedRows d rows) beta gamma betaBias gammaBias)
      = (items.flatMap (globalResiduals rows beta gamma betaBias gammaBias)).map (· + d) := by
    rw [List.map_flatMap]
    exact List.flatMap_congr fun i _ => globalResiduals_raised d rows beta gamma _ _ i
  rw [newGlobalBias_eq, newGlobalBias_eq, hall, meanOf_raised]
  rfl

/-! ### What a sweep does to a raised model -/

namespace Model

@[simp] theorem globalBias_raised (m : Model ℝ n) : (m.raised d).globalBias = m.globalBias + d := rfl

/-- Counting does not look at the **global bias**. -/
theorem countRow_raised (m : Model ℝ n) (total trainable skipped : Counted) (ks : List Key)
    (W : Factors ℝ n) :
    (m.raised d).countRow total trainable skipped ks W
      = (m.countRow total trainable skipped ks W).raised d := rfl

/-! A step writes what it computes, so it does the same to the raised model. -/

theorem sweepUser_raised (background : Mat ℝ n n) (m : Model ℝ n) (row : Key × List Key) :
    sweepUser background (m.raised d) row = (sweepUser background m row).map (raised d) := by
  rw [sweepUser_eq_writing, sweepUser_eq_writing, countRow_raised]
  exact Outcome.map_ite Iff.rfl (Outcome.map_writing (fun _ => by rfl) _) rfl

theorem updateBeta_raised (background : Mat ℝ n n) (m : Model ℝ n) (item : Key)
    (raters : List Key) (row : Row ℝ) :
    updateBeta background (m.raised d) item raters (Row.raised d row)
      = (updateBeta background m item raters row).map (raised d) := by
  rw [updateBeta_eq_writing, updateBeta_eq_writing, globalBias_raised, newBeta_raised]
  exact Outcome.map_writing (fun _ => by rfl) _

theorem updateGamma_raised (m : Model ℝ n) (item : Key) (row : Row ℝ) :
    updateGamma (m.raised d) item (Row.raised d row)
      = (updateGamma m item row).map (raised d) := by
  rw [updateGamma_eq_writing, updateGamma_eq_writing, globalBias_raised, newGamma_raised]
  exact Outcome.map_writing (fun o => by cases o <;> rfl) _

theorem updateBiases_raised (m : Model ℝ n) (item : Key) (row : Row ℝ) :
    updateBiases (m.raised d) item (Row.raised d row)
      = (updateBiases m item row).map (raised d) := by
  rw [updateBiases_eq_writing, updateBiases_eq_writing]
  refine Outcome.map_bind ?_ fun m => ?_
  · rw [globalBias_raised, newBias_raised]
    exact Outcome.map_writing (fun o => by cases o <;> rfl) _
  · rw [globalBias_raised, newBias_raised]
    exact Outcome.map_writing (fun o => by cases o <;> rfl) _

/-- Where the global bias is estimated it is estimated **higher**, and where it is not it was
higher. -/
theorem updateGlobal_raised (m : Model ℝ n) (items : List Key) (rows : Table Key (Row ℝ)) :
    updateGlobal (m.raised d) items (raisedRows d rows)
      = (updateGlobal m items rows).map (raised d) := by
  rw [updateGlobal_eq_writing, updateGlobal_eq_writing, newGlobalBias_raised]
  refine Outcome.map_ite Iff.rfl ?_ rfl
  rw [Outcome.writing_map]
  exact Outcome.map_writing (fun o => by cases o <;> rfl) _

theorem sweepItem_raised (background : Mat ℝ n n) (rows : Table Key (Row ℝ)) (m : Model ℝ n)
    (row : Key × List Key) :
    sweepItem background (raisedRows d rows) (m.raised d) row
      = (sweepItem background rows m row).map (raised d) := by
  let neighbors := (rows.get? row.1).getD []
  let counted (k : ℕ) := (m.countRow .betaTotal .betaTrainable .skippedUsers row.2 m.theta).count
    .skippedItems k
  have hskipped : ((Row.raised d neighbors).filter fun e => decide (e.1 ∉ m.gamma)).length
      = (neighbors.filter fun e => decide (e.1 ∉ m.gamma)).length := by
    rw [Row.raised, List.filter_map, List.length_map]
    rfl
  rw [sweepItem, sweepItem, getD_get?_raisedRows]
  refine Outcome.map_ite Iff.rfl (Outcome.map_bind (Outcome.map_bind ?_ fun m => ?_)
    fun m => ?_) rfl
  · exact (congrArg (fun k => updateBeta background ((counted k).raised d) row.1 row.2
      (Row.raised d neighbors)) hskipped).trans (updateBeta_raised d background _ row.1 row.2 _)
  · exact updateGamma_raised d m _ _
  · exact Outcome.map_ite Iff.rfl (updateBiases_raised d m _ _) rfl

theorem updateUsers_raised (m : Model ℝ n) (userItems : Table Key (List Key)) :
    (m.raised d).updateUsers userItems = (m.updateUsers userItems).map (raised d) := by
  have heach := Outcome.map_each (raised d) (sweepUser_raised d
    (m.beta.background m.hyper.unobserved m.hyper.ridgeTheta)) m userItems.entries
  rw [updateUsers, updateUsers]
  exact Outcome.map_bind heach fun _ => rfl

theorem updateItems_raised (m : Model ℝ n) (itemUsers : Table Key (List Key))
    (rows : Table Key (Row ℝ)) :
    (m.raised d).updateItems itemUsers (raisedRows d rows)
      = (m.updateItems itemUsers rows).map (raised d) := by
  have heach := Outcome.map_each (raised d) (sweepItem_raised d
    (m.theta.background m.hyper.unobserved m.hyper.ridgeBeta) rows) m itemUsers.entries
  rw [updateItems, updateItems]
  exact Outcome.map_bind (Outcome.map_bind heach fun m => updateGlobal_raised d m _ _) fun _ => rfl

/-- A **whole sweep** does the same to the raised model, and fails in the same way if it does. -/
theorem perform_raised (m : Model ℝ n) (s : Sweep) :
    (m.raised d).perform (s.raised d) = (m.perform s).map (raised d) := by
  cases s with
  | users userItems => exact updateUsers_raised d m userItems
  | items itemUsers rows => exact updateItems_raised d m itemUsers rows

end Model

/-! ### The loss of raised samples -/

/-- Raising samples leaves **which side** they are of alone. -/
theorem separate_raised (samples : List (Sample ℝ)) :
    Model.separate (samples.map (Sample.raised d))
      = (Model.separate samples).map fun p =>
          (p.1.map (Sample.raised d), p.2.map (Sample.raised d)) := by
  induction samples with
  | nil => rfl
  | cons s samples ih =>
      rw [List.map_cons, Model.separate, ih, Model.separate]
      cases s with
      | foreign t => rfl
      | user k features => cases Model.separate samples <;> rfl
      | item k features row => cases Model.separate samples <;> rfl

/-- The error of the preferences reads **no row**. -/
theorem preferenceLoss_raised (samples : List (Sample ℝ)) (beta theta : Factors ℝ n) (c₀ c₁ : ℝ) :
    (preferenceLoss (samples.map (Sample.raised d)) beta theta c₀ c₁ : Except Fault ℝ)
      = preferenceLoss samples beta theta c₀ c₁ := by
  rw [preferenceLoss, preferenceLoss, List.foldlM_map]
  refine congrArg (fun step => List.foldlM step 0 samples) (funext fun loss => funext fun s => ?_)
  cases s <;> rfl

/-- The error of a raised row is **the same** if the global bias rises with it. -/
theorem rowLoss_raised (i : Key) (v : Vec ℝ n) (row : Row ℝ) (gamma : Factors ℝ n)
    (betaBias gammaBias : Option (Table Key (Bias ℝ))) (globalBias loss : ℝ) :
    (rowLoss i v (Row.raised d row) gamma betaBias gammaBias (globalBias + d) loss : Except Fault ℝ)
      = rowLoss i v row gamma betaBias gammaBias globalBias loss := by
  rw [rowLoss, rowLoss, Row.raised, List.foldlM_map]
  refine congrArg (fun step => List.foldlM step loss row) (funext fun loss => funext fun e => ?_)
  cases gamma.get? e.1 with
  | none => rfl
  | some w =>
      have hrest : e.2 + d - v.coords ⬝ᵥ w.coords - (biasOf betaBias i).scalar
          - (biasOf gammaBias e.1).scalar - (globalBias + d)
            = e.2 - v.coords ⬝ᵥ w.coords - (biasOf betaBias i).scalar
              - (biasOf gammaBias e.1).scalar - globalBias := by ring
      dsimp only
      rw [paired_eq]
      exact congrArg (fun y : Except Fault ℝ => y >>= fun x => .ok (loss + x))
        (congrArg squared hrest)

/-- The error of the **neighbours' weights** is the same if the global bias rises with them. -/
theorem neighborLoss_raised (samples : List (Sample ℝ)) (beta gamma : Factors ℝ n)
    (betaBias gammaBias : Option (Table Key (Bias ℝ))) (globalBias : ℝ) :
    (neighborLoss (samples.map (Sample.raised d)) beta gamma betaBias gammaBias (globalBias + d) :
        Except Fault ℝ)
      = neighborLoss samples beta gamma betaBias gammaBias globalBias := by
  rw [neighborLoss, neighborLoss, List.foldlM_map]
  refine congrArg (fun step => List.foldlM step 0 samples) (funext fun loss => funext fun s => ?_)
  cases s with
  | foreign t => rfl
  | user k features => rfl
  | item k features row =>
      have hrow : (row.map (Row.raised d)).getD [] = Row.raised d (row.getD []) := by
        cases row <;> rfl
      dsimp only [Sample.raised]
      rw [hrow]
      cases beta.get? k with
      | none => rfl
      | some v => exact rowLoss_raised d k v _ gamma betaBias gammaBias globalBias loss

/-- The raised model has **the same loss** on the raised samples, whatever they are. -/
theorem Model.loss_raised (m : Model ℝ n) (samples : List (Sample ℝ)) :
    (m.raised d).loss (samples.map (Sample.raised d)) = m.loss samples := by
  rw [Model.loss, Model.loss, separate_raised]
  cases separate samples with
  | error f => rfl
  | ok p =>
      have hpreferences : (m.raised d).preferenceLoss (p.1.map (Sample.raised d))
          = m.preferenceLoss p.1 := preferenceLoss_raised d p.1 m.beta m.theta _ _
      have hneighbors : (m.raised d).neighborLoss (p.2.map (Sample.raised d))
          = m.neighborLoss p.2 := neighborLoss_raised d p.2 m.beta m.gamma _ _ m.globalBias
      change ((m.raised d).preferenceLoss (p.1.map (Sample.raised d)) >>= fun x =>
        (m.raised d).neighborLoss (p.2.map (Sample.raised d)) >>= fun y => m.ridgeLoss >>= fun z => _)
          = (m.preferenceLoss p.1 >>= fun x => m.neighborLoss p.2 >>= fun y =>
            m.ridgeLoss >>= fun z => _)
      rw [hpreferences, hneighbors]

/-! ### Whole runs -/

/-- **The offset of the weights trades with the global bias**: sweeps over raised rows, from the
raised model, leave the same vectors and biases as the sweeps over the rows do, and a global bias
that is higher by exactly as much. After any of them the next sweep fails if and only if it would
have failed, with the same fault, and raised samples have the same loss. -/
theorem offset_trades_with_globalBias (m : Model ℝ n) (sweeps : List Sweep) :
    let m' := m.swept sweeps
    (m.raised d).swept (sweeps.map (Sweep.raised d)) = m'.raised d ∧
      (∀ s, (m'.raised d).perform (s.raised d) = (m'.perform s).map (Model.raised d)) ∧
      (∀ samples, (m'.raised d).loss (samples.map (Sample.raised d)) = m'.loss samples) ∧
      ∀ t : Training ℝ,
        (m'.raised d).loss { t with rows := raisedRows d t.rows }.samples = m'.loss t.samples := by
  intro m'
  have hsteps : ∀ (m : Model ℝ n) s, ((m.raised d).perform (s.raised d)).state
      = (m.perform s).state.raised d := fun m s => by rw [m.perform_raised d s]; rfl
  refine ⟨Model.swept_map hsteps m sweeps, m'.perform_raised d, m'.loss_raised d, fun t => ?_⟩
  have husers : (userSamples t.userItems).map (Sample.raised d) = userSamples t.userItems := by
    rw [userSamples, List.map_map]
    rfl
  rw [← m'.loss_raised d t.samples, Training.samples, Training.samples, List.map_append, husers,
    itemSamples_raisedRows]

end CoEmbed
