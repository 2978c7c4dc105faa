import CoEmbed.Proofs.Objective.Entries
import CoEmbed.Proofs.Objective.Stationary

/-!
# Rows with their Entries in Another Order

Every list inside a table stands for sums over it: of vectors, of outer products, of residuals, of
errors. In exact arithmetic none of them depends on the order of the list, and neither does what is
counted, so a run on shuffled rows is the same run, step by step and fault by fault.

* `Table.Shuffled` — two tables with the same keys in the same order, whose lists hold the same
  entries in any order.
* `newTheta_perm`, `newBeta_perm`, `newGamma_perm`, `newBias_perm`, `newGlobalBias_shuffled` — what
  is computed from a row.
* `Model.sweepUser_perm`, `Model.sweepItem_perm` — what happens at a row.
* `Sweep.Shuffled`, `Model.perform_shuffled` — what a sweep comes to.
* `Model.outcomes` — the outcomes of all sweeps of a sequence.
* `order_inside_rows_irrelevant` — the same outcomes, and the same losses.

## Row convention

The rows of a table keep their order: a row at an item reads what the rows before it have put in
place, so the order of rows does make a difference.
-/

open Matrix

namespace CoEmbed

variable {n : ℕ}

/-! ### Shuffled tables -/

/-- The **same rows**, in the same order, with the entries inside each of them in any order. -/
def Table.Shuffled {κ ν : Type} (t t' : Table κ (List ν)) : Prop :=
  List.Forall₂ (fun e e' => e.1 = e'.1 ∧ e.2.Perm e'.2) t.entries t'.entries

namespace Table.Shuffled

variable {κ ν : Type} {t t' : Table κ (List ν)}

theorem keys_eq (h : t.Shuffled t') : t.keys = t'.keys := by
  rw [keys, keys, ← List.forall₂_eq_eq_eq, List.forall₂_map_left_iff, List.forall₂_map_right_iff]
  exact h.imp fun _ _ he => he.1

/-- The **row of a key** holds the same entries, and is empty if there is none. -/
theorem perm [DecidableEq κ] (h : t.Shuffled t') (k : κ) :
    ((t.get? k).getD []).Perm ((t'.get? k).getD []) := by
  obtain ⟨es, hes⟩ := t
  obtain ⟨es', hes'⟩ := t'
  change List.Forall₂ _ es es' at h
  change ((valueIn k es).getD []).Perm ((valueIn k es').getD [])
  clear hes hes'
  induction h with
  | nil => exact .nil
  | @cons e e' _ _ he _ ih =>
      rw [valueIn, valueIn, ← he.1]
      by_cases hk : e.1 = k
      · rw [if_pos hk, if_pos hk]
        exact he.2
      · rwa [if_neg hk, if_neg hk]

end Table.Shuffled

namespace Outcome

/-- Runs whose members **come to the same** one by one come to the same. -/
theorem each_congr {σ ρ ρ' : Type} {R : ρ → ρ' → Prop} {step : σ → ρ → Outcome σ}
    {step' : σ → ρ' → Outcome σ} (hstep : ∀ s r r', R r r' → step s r = step' s r')
    {rs : List ρ} {rs' : List ρ'} (h : List.Forall₂ R rs rs') (s : σ) :
    each step s rs = each step' s rs' := by
  induction h generalizing s with
  | nil => rfl
  | cons hr _ ih =>
      rw [each, each, hstep s _ _ hr]
      exact congrArg (bind _) (funext ih)

end Outcome

/-! ### What is computed from a row -/

section

variable {ks ls : List Key} {row row' : Row ℝ}

theorem Factors.gramOn_perm (W : Factors ℝ n) (h : ks.Perm ls) (c : ℝ) :
    W.gramOn ks c = W.gramOn ls c := by
  refine Mat.toMatrix_injective ?_
  rw [toMatrix_gramOn, toMatrix_gramOn, (h.map _).sum_eq]

theorem weightedSum_perm (h : ks.Perm ls) (W : Factors ℝ n) (c : ℝ) :
    weightedSum ks W c = weightedSum ls W c := by
  refine Vec.coords_injective ?_
  rw [coords_weightedSum, coords_weightedSum, (h.map _).sum_eq]

theorem pull_perm (h : row.Perm row') (W : Factors ℝ n) (globalBias : ℝ) :
    pull row W globalBias = pull row' W globalBias := by
  refine Vec.coords_injective ?_
  rw [coords_pull, coords_pull, (h.map _).sum_eq]

/-- The best vector of a **user**, or the fault of the user's system. -/
theorem newTheta_perm (h : ks.Perm ls) (beta : Factors ℝ n) (background : Mat ℝ n n)
    (c₀ c₁ : ℝ) : newTheta ks beta background c₀ c₁ = newTheta ls beta background c₀ c₁ := by
  rw [newTheta, newTheta, beta.gramOn_perm h, weightedSum_perm h]

/-- The best vector of an **item**, or the fault of the item's system. -/
theorem newBeta_perm (h : ks.Perm ls) (hrow : row.Perm row') (item : Key)
    (theta gamma : Factors ℝ n) (betaBias gammaBias : Option (Table Key (Bias ℝ)))
    (background : Mat ℝ n n) (c₀ c₁ globalBias : ℝ) :
    newBeta item ks row theta gamma betaBias gammaBias background c₀ c₁ globalBias
      = newBeta item ls row' theta gamma betaBias gammaBias background c₀ c₁ globalBias := by
  rw [newBeta, newBeta, unexplained_scalars, unexplained_scalars, hrow.isEmpty_eq,
    theta.gramOn_perm h, gamma.gramOn_perm (hrow.map Prod.fst), weightedSum_perm h]
  change solveSystem _ (Vec.add _ (pull _ _ _)) = solveSystem _ (Vec.add _ (pull _ _ _))
  rw [pull_perm (hrow.map _)]

/-- The best vector of an item **as a neighbour**, or the fault of its system. -/
theorem newGamma_perm (hrow : row.Perm row') (item : Key) (beta : Factors ℝ n)
    (betaBias gammaBias : Option (Table Key (Bias ℝ))) (ridge globalBias : ℝ) :
    newGamma item row beta betaBias gammaBias ridge globalBias
      = newGamma item row' beta betaBias gammaBias ridge globalBias := by
  have hneighbors := (hrow.map Prod.fst).filter fun j => decide (j ∈ beta)
  rw [newGamma, newGamma, unexplained_scalars, unexplained_scalars]
  refine if_congr (by rw [hneighbors.isEmpty_eq]) rfl ?_
  change Except.map some (solveSystem _ (pull _ _ _)) = Except.map some (solveSystem _ (pull _ _ _))
  rw [beta.gramOn_perm hneighbors, pull_perm (hrow.map _)]

theorem residuals_perm (hrow : row.Perm row') (x : Fin n → ℝ) (W : Factors ℝ n)
    (rest : ℝ → Key → ℝ → ℝ) : (residuals x row W rest).Perm (residuals x row' W rest) :=
  (hrow.filter _).map _

theorem meanOf_perm {rs ss : List ℝ} (h : rs.Perm ss) : meanOf rs = meanOf ss := by
  rw [meanOf, meanOf, h.sum_eq, h.length_eq]
  refine if_congr ?_ rfl rfl
  rw [← List.length_eq_zero_iff, h.length_eq, List.length_eq_zero_iff]

/-- The best **bias** of an item. -/
theorem newBias_perm (hrow : row.Perm row') (item : Key) (own others : Factors ℝ n)
    (otherBias : Option (Table Key (Bias ℝ))) (globalBias : ℝ) :
    newBias item row own others otherBias globalBias
      = newBias item row' own others otherBias globalBias := by
  rw [newBias_eq, newBias_eq, meanOf_perm (residuals_perm hrow _ _ _)]

/-- The best **global bias** over many rows. -/
theorem newGlobalBias_shuffled {rows rows' : Table Key (Row ℝ)} (h : rows.Shuffled rows')
    (items : List Key) (beta gamma : Factors ℝ n)
    (betaBias gammaBias : Option (Table Key (Bias ℝ))) :
    newGlobalBias items rows beta gamma betaBias gammaBias
      = newGlobalBias items rows' beta gamma betaBias gammaBias := by
  have hall : (items.flatMap (globalResiduals rows beta gamma betaBias gammaBias)).Perm
      (items.flatMap (globalResiduals rows' beta gamma betaBias gammaBias)) := by
    refine List.Perm.flatMap_left items fun i _ => ?_
    rw [globalResiduals, globalResiduals]
    split
    · exact residuals_perm (h.perm i) _ _ _
    · exact .nil
  rw [newGlobalBias_eq, newGlobalBias_eq, meanOf_perm hall]

end

/-! ### What happens at a row -/

namespace Model

variable {ks ls : List Key} {row row' : Row ℝ}

/-- What is **counted** at a row. -/
theorem countRow_perm {α : Type} (h : ks.Perm ls) (m : Model α n)
    (total trainable skipped : Counted) (W : Factors α n) :
    m.countRow total trainable skipped ks W = m.countRow total trainable skipped ls W := by
  have hfound := (h.filter fun k => decide (k ∈ W)).length_eq
  rw [countRow, countRow, hfound, h.length_eq]

theorem sweepUser_perm (background : Mat ℝ n n) (m : Model ℝ n) {e e' : Key × List Key}
    (h : e.1 = e'.1 ∧ e.2.Perm e'.2) : sweepUser background m e = sweepUser background m e' := by
  rw [sweepUser_eq_writing, sweepUser_eq_writing, countRow_perm h.2, newTheta_perm h.2, h.1]

theorem updateBeta_perm (h : ks.Perm ls) (hrow : row.Perm row') (background : Mat ℝ n n)
    (m : Model ℝ n) (item : Key) :
    updateBeta background m item ks row = updateBeta background m item ls row' := by
  rw [updateBeta_eq_writing, updateBeta_eq_writing, newBeta_perm h hrow]

theorem updateGamma_perm (hrow : row.Perm row') (m : Model ℝ n) (item : Key) :
    updateGamma m item row = updateGamma m item row' := by
  rw [updateGamma_eq_writing, updateGamma_eq_writing, newGamma_perm hrow]

theorem updateBiases_perm (hrow : row.Perm row') (m : Model ℝ n) (item : Key) :
    updateBiases m item row = updateBiases m item row' := by
  rw [updateBiases_eq_writing, updateBiases_eq_writing, newBias_perm hrow]
  simp only [newBias_perm hrow]

/-- At a row of an **item** the lists of its users and its neighbours may be shuffled. -/
theorem sweepItem_perm (background : Mat ℝ n n) {rows rows' : Table Key (Row ℝ)}
    (hrows : rows.Shuffled rows') (m : Model ℝ n) {e e' : Key × List Key}
    (h : e.1 = e'.1 ∧ e.2.Perm e'.2) :
    sweepItem background rows m e = sweepItem background rows' m e' := by
  have hrow := hrows.perm e'.1
  have hskipped := (hrow.filter fun f => decide (f.1 ∉ m.gamma)).length_eq
  rw [sweepItem, sweepItem, h.1, countRow_perm h.2]
  refine if_congr Iff.rfl ?_ rfl
  -- what is skipped is counted before the item's vector is looked for, so the two models that the
  -- updates start from are made equal first
  let counted (k : ℕ) := (m.countRow .betaTotal .betaTrainable .skippedUsers e'.2 m.theta).count
    .skippedItems k
  have hbeta : updateBeta background
        (counted (((rows.get? e'.1).getD []).filter fun f => decide (f.1 ∉ m.gamma)).length) e'.1
        e.2 ((rows.get? e'.1).getD [])
      = updateBeta background
        (counted (((rows'.get? e'.1).getD []).filter fun f => decide (f.1 ∉ m.gamma)).length) e'.1
        e'.2 ((rows'.get? e'.1).getD []) := by
    rw [hskipped, updateBeta_perm h.2 hrow]
  refine (congrArg (fun o => (Outcome.bind o _).bind _) hbeta).trans ?_
  simp only [updateGamma_perm hrow, updateBiases_perm hrow]
  rfl

theorem updateUsers_shuffled (m : Model ℝ n) {t t' : Table Key (List Key)} (h : t.Shuffled t') :
    m.updateUsers t = m.updateUsers t' := by
  have hrows := Outcome.each_congr (sweepUser_perm
    (m.beta.background m.hyper.unobserved m.hyper.ridgeTheta)) h m
  rw [updateUsers, updateUsers, hrows]
  simp only [strangers, h.keys_eq]

theorem updateGlobal_shuffled (m : Model ℝ n) (items : List Key) {rows rows' : Table Key (Row ℝ)}
    (hrows : rows.Shuffled rows') : m.updateGlobal items rows = m.updateGlobal items rows' := by
  rw [updateGlobal_eq_writing, updateGlobal_eq_writing, newGlobalBias_shuffled hrows]

theorem updateItems_shuffled (m : Model ℝ n) {t t' : Table Key (List Key)} (h : t.Shuffled t')
    {rows rows' : Table Key (Row ℝ)} (hrows : rows.Shuffled rows') :
    m.updateItems t rows = m.updateItems t' rows' := by
  have heach := Outcome.each_congr (sweepItem_perm
    (m.theta.background m.hyper.unobserved m.hyper.ridgeBeta) hrows) h m
  rw [updateItems, updateItems, heach]
  simp only [updateGlobal_shuffled _ _ hrows, strangers, h.keys_eq]

end Model

/-! ### Sweeps -/

/-- The **same sweep** over shuffled tables. -/
inductive Sweep.Shuffled : Sweep → Sweep → Prop
  | users {t t' : Table Key (List Key)} (h : t.Shuffled t') : Shuffled (.users t) (.users t')
  | items {t t' : Table Key (List Key)} {rows rows' : Table Key (Row ℝ)} (h : t.Shuffled t')
      (hrows : rows.Shuffled rows') : Shuffled (.items t rows) (.items t' rows')

namespace Model

/-- A sweep over shuffled tables comes to **the same model and the same fault**. -/
theorem perform_shuffled (m : Model ℝ n) {s s' : Sweep} (h : s.Shuffled s') :
    m.perform s = m.perform s' := by
  cases h with
  | users h => exact m.updateUsers_shuffled h
  | items h hrows => exact m.updateItems_shuffled h hrows

/-- The **outcomes of all sweeps** of a sequence; one that is aborted leaves behind what it has
done, and the next one goes on from there. -/
noncomputable def outcomes (m : Model ℝ n) : List Sweep → List (Outcome (Model ℝ n))
  | [] => []
  | s :: sweeps => m.perform s :: (m.perform s).state.outcomes sweeps

/-- Sequences of sweeps over shuffled tables have **the same outcomes**, one by one. -/
theorem outcomes_shuffled {sweeps sweeps' : List Sweep}
    (h : List.Forall₂ Sweep.Shuffled sweeps sweeps') (m : Model ℝ n) :
    m.outcomes sweeps = m.outcomes sweeps' := by
  induction h generalizing m with
  | nil => rfl
  | cons hs _ ih => rw [outcomes, outcomes, m.perform_shuffled hs, ih]

/-- Sequences of sweeps over shuffled tables leave **the same model**. -/
theorem swept_shuffled {sweeps sweeps' : List Sweep}
    (h : List.Forall₂ Sweep.Shuffled sweeps sweeps') (m : Model ℝ n) :
    m.swept sweeps = m.swept sweeps' := by
  induction h generalizing m with
  | nil => rfl
  | cons hs _ ih =>
      rw [swept, swept, List.foldl_cons, List.foldl_cons, m.perform_shuffled hs]
      exact ih _

end Model

/-! ### Losses -/

/-- The values of a key come **in another order**. -/
theorem weightsOf_perm {ω : Type} {es fs : List (Key × ω)} (h : es.Perm fs) (k : Key) :
    (weightsOf es k).Perm (weightsOf fs k) := h.filterMap _

theorem contextError_perm {features features' : List (Feature ℝ)} (h : features.Perm features')
    (own others : Factors ℝ n) (c₀ c₁ : ℝ) (k : Key) :
    contextError own others c₀ c₁ k features = contextError own others c₀ c₁ k features' :=
  if_congr Iff.rfl
    (Finset.sum_congr rfl fun j _ => scoreError_perm (weightsOf_perm h j) c₀ c₁ _) rfl

theorem neighborError_perm {row row' : Row ℝ} (h : row.Perm row') (gamma : Factors ℝ n)
    (betaBias gammaBias : Option (Table Key (Bias ℝ))) (globalBias : ℝ) (i : Key)
    (x : Fin n → ℝ) :
    neighborError gamma betaBias gammaBias globalBias i row x
      = neighborError gamma betaBias gammaBias globalBias i row' x :=
  Finset.sum_congr rfl fun j _ => ((weightsOf_perm h j).map _).sum_eq

/-- Lists whose members have **the same image** one by one have the same images. -/
theorem map_eq_of_forall₂ {ρ ρ' β : Type} {R : ρ → ρ' → Prop} {f : ρ → β} {f' : ρ' → β}
    (hf : ∀ r r', R r r' → f r = f' r') {rs : List ρ} {rs' : List ρ'}
    (h : List.Forall₂ R rs rs') : rs.map f = rs'.map f' := by
  rw [← List.forall₂_eq_eq_eq, List.forall₂_map_left_iff, List.forall₂_map_right_iff]
  exact h.imp hf

namespace Model

/-- The samples of shuffled tables have **the same loss**. -/
theorem loss_shuffled (m : Model ℝ n) {userItems userItems' : Table Key (List Key)}
    {itemUsers itemUsers' : Table Key (List Key)} {rows rows' : Table Key (Row ℝ)}
    (husers : userItems.Shuffled userItems') (hitems : itemUsers.Shuffled itemUsers')
    (hrows : rows.Shuffled rows') :
    m.loss (userSamples userItems ++ itemSamples itemUsers rows)
      = m.loss (userSamples userItems' ++ itemSamples itemUsers' rows') := by
  have huser : (userSamples userItems).map m.sampleLoss
      = (userSamples userItems').map m.sampleLoss := by
    rw [userSamples, userSamples, List.map_map, List.map_map]
    refine map_eq_of_forall₂ (fun e e' he => ?_) husers
    rw [Function.comp_apply, Function.comp_apply, he.1]
    exact contextError_perm (he.2.map _) _ _ _ _ _
  have hitem : (itemSamples itemUsers rows).map m.sampleLoss
      = (itemSamples itemUsers' rows').map m.sampleLoss := by
    rw [itemSamples, itemSamples, List.map_map, List.map_map]
    refine map_eq_of_forall₂ (fun e e' he => ?_) hitems
    rw [Function.comp_apply, Function.comp_apply, he.1]
    exact if_congr Iff.rfl (neighborError_perm (hrows.perm e'.1) _ _ _ _ _ _) rfl
  rw [m.loss_samples (known_samples _ _ _), m.loss_samples (known_samples _ _ _), List.map_append,
    List.map_append, huser, hitem]

end Model

/-- **The order inside the rows is irrelevant**: from any model, a sequence of sweeps has the same
outcomes, in parameters, counters and faults, if the entries inside the lists of users, the lists of
items and the rows of neighbours come in another order, and the samples of the tables have the same
loss wherever it leads. -/
theorem order_inside_rows_irrelevant (m : Model ℝ n) {sweeps sweeps' : List Sweep}
    (h : List.Forall₂ Sweep.Shuffled sweeps sweeps') :
    m.outcomes sweeps = m.outcomes sweeps' ∧ m.swept sweeps = m.swept sweeps' ∧
      ∀ t t' : Training ℝ, t.userItems.Shuffled t'.userItems → t.itemUsers.Shuffled t'.itemUsers →
        t.rows.Shuffled t'.rows →
          (m.swept sweeps).loss t.samples = (m.swept sweeps').loss t'.samples := by
  have hswept := Model.swept_shuffled h m
  refine ⟨Model.outcomes_shuffled h m, hswept, fun t t' husers hitems hrows => ?_⟩
  rw [hswept]
  exact (m.swept sweeps').loss_shuffled husers hitems hrows

/-- A user's list, an item's list and a row of neighbours are **turned around**. -/
theorem order_inside_rows_irrelevant_turned :
    let userItems : Table Key (List Key) :=
      Table.ofList [(.text "u", [.text "a"]), (.text "v", [.text "b", .text "a"])]
    let itemUsers : Table Key (List Key) :=
      Table.ofList [(.text "a", [.text "v", .text "u"]), (.text "b", [.text "v"])]
    let rows : Table Key (Row ℝ) := Table.ofList
      [(.text "a", [(.text "b", 1), (.text "nobody", 3), (.text "a", 2)]),
        (.text "b", [(.text "a", 1)])]
    let rows' : Table Key (Row ℝ) := Table.ofList
      [(.text "a", [(.text "a", 2), (.text "nobody", 3), (.text "b", 1)]),
        (.text "b", [(.text "a", 1)])]
    let sweeps : List Sweep := [.items itemUsers rows, .users userItems, .items itemUsers rows]
    let sweeps' : List Sweep := [.items Training.mutual.itemUsers rows',
      .users Training.mutual.userItems, .items Training.mutual.itemUsers rows']
    List.Forall₂ Sweep.Shuffled sweeps sweeps' ∧
      Model.mutual.outcomes sweeps = Model.mutual.outcomes sweeps' ∧
      (Model.mutual.swept sweeps).loss (userSamples userItems ++ itemSamples itemUsers rows)
        = (Model.mutual.swept sweeps').loss { Training.mutual with rows := rows' }.samples := by
  intro userItems itemUsers rows rows' sweeps sweeps'
  have husers : userItems.Shuffled Training.mutual.userItems :=
    .cons ⟨rfl, .refl _⟩ (.cons ⟨rfl, .swap _ _ _⟩ .nil)
  have hitems : itemUsers.Shuffled Training.mutual.itemUsers :=
    .cons ⟨rfl, .swap _ _ _⟩ (.cons ⟨rfl, .refl _⟩ .nil)
  have hrows : rows.Shuffled rows' :=
    .cons ⟨rfl, (List.reverse_perm _).symm⟩ (.cons ⟨rfl, .refl _⟩ .nil)
  have hsweeps : List.Forall₂ Sweep.Shuffled sweeps sweeps' :=
    .cons (.items hitems hrows) (.cons (.users husers) (.cons (.items hitems hrows) .nil))
  obtain ⟨houtcomes, -, hloss⟩ := order_inside_rows_irrelevant Model.mutual hsweeps
  exact ⟨hsweeps, houtcomes, hloss { Training.mutual with
    userItems := userItems
    itemUsers := itemUsers
    rows := rows } { Training.mutual with rows := rows' } husers hitems hrows⟩

end CoEmbed
