import CoEmbed.Proofs.Exact.Factors

/-!
# The Updates in Exact Arithmetic

What each closed-form update solves, in terms of the vectors of its keys. A vector is the one
solution of a system whose matrix is a sum of outer products, and a bias is the mean of a list
of residuals.

* `observedMatrix`, `observedTarget` — the part of a system that comes from preferences.
* `rowMatrix`, `rowTarget` — the part that comes from the weighted neighbours.
* `thetaSystem`, `betaSystem`, `gammaSystem` — the systems as the updates put them together.
* `newTheta_eq_ok_iff`, `newBeta_eq_ok_iff`, `newGamma_eq_ok_iff` — the vectors.
* `residuals`, `newBias_eq`, `newGlobalBias_eq` — the biases.
* `posDef_observedMatrix` — with a positive ridge the systems have solutions.

## Multiplicity convention

A key that is listed `k` times is observed with confidence `c₀ + k (c₁ - c₀)`: the background
counts it once with `c₀`, and each mention exchanges `c₀` for `c₁` once more.
-/

open Matrix

namespace CoEmbed

variable {n : ℕ}

/-! ### The two parts of a system -/

/-- The matrix of the **preferences**: every vector of the fixed side with its confidence, and
the ridge. -/
noncomputable def observedMatrix (W : Factors ℝ n) (ks : List Key) (c₀ c₁ ridge : ℝ) :
    Matrix (Fin n) (Fin n) ℝ :=
  ∑ k ∈ W.domain, (c₀ + (ks.count k : ℝ) * (c₁ - c₀)) • outer (W.vectorAt k)
    + ridge • (1 : Matrix (Fin n) (Fin n) ℝ)

/-- The right-hand side of the preferences. -/
noncomputable def observedTarget (W : Factors ℝ n) (ks : List Key) (c₁ : ℝ) : Fin n → ℝ :=
  ∑ k ∈ W.domain, ((ks.count k : ℝ) * c₁) • W.vectorAt k

/-- The matrix of the **neighbours** in a row. -/
noncomputable def rowMatrix (W : Factors ℝ n) (row : Row ℝ) : Matrix (Fin n) (Fin n) ℝ :=
  (row.map fun e => outer (W.vectorAt e.1)).sum

/-- The right-hand side of the neighbours in a row; `rest` is what is left of a weight. -/
noncomputable def rowTarget (W : Factors ℝ n) (row : Row ℝ) (rest : Key → ℝ → ℝ) : Fin n → ℝ :=
  (row.map fun e => rest e.1 e.2 • W.vectorAt e.1).sum

/-- The matrix of the neighbours in a row, **by key**. -/
theorem rowMatrix_eq_sum (W : Factors ℝ n) (row : Row ℝ) :
    rowMatrix W row
      = ∑ j ∈ W.domain, ((weightsOf row j).map fun _ => outer (W.vectorAt j)).sum := by
  refine sum_map_eq_sum_weightsOf W.domain row (fun j _ => outer (W.vectorAt j)) fun j hj _ => ?_
  rw [Factors.vectorAt_of_not_mem fun hmem => hj (Table.mem_domain.2 hmem), outer_zero]

/-- The right-hand side of the neighbours in a row, by key. -/
theorem rowTarget_eq_sum (W : Factors ℝ n) (row : Row ℝ) (rest : Key → ℝ → ℝ) :
    rowTarget W row rest
      = ∑ j ∈ W.domain, ((weightsOf row j).map fun w => rest j w • W.vectorAt j).sum := by
  refine sum_map_eq_sum_weightsOf W.domain row (fun j w => rest j w • W.vectorAt j)
    fun j hj w => ?_
  rw [Factors.vectorAt_of_not_mem fun hmem => hj (Table.mem_domain.2 hmem), smul_zero]

theorem isSymm_observedMatrix (W : Factors ℝ n) (ks : List Key) (c₀ c₁ ridge : ℝ) :
    (observedMatrix W ks c₀ c₁ ridge).IsSymm := by
  rw [observedMatrix, IsSymm, transpose_add, transpose_sum, transpose_smul, transpose_one]
  refine congrArg₂ _ (Finset.sum_congr rfl fun k _ => ?_) rfl
  rw [transpose_smul, isSymm_outer]

theorem isSymm_rowMatrix (W : Factors ℝ n) (row : Row ℝ) : (rowMatrix W row).IsSymm :=
  isSymm_sum_outer (fun e : Key × ℝ => W.vectorAt e.1) row

/-- Background and correction make up the matrix of the preferences. -/
theorem toMatrix_background_add (W : Factors ℝ n) (ks : List Key) (c₀ c₁ ridge : ℝ) :
    (W.background c₀ ridge).toMatrix + (W.gramOn ks (c₁ - c₀)).toMatrix
      = observedMatrix W ks c₀ c₁ ridge := by
  rw [Factors.toMatrix_background, Factors.toMatrix_gramOn_eq_sum, observedMatrix,
    add_right_comm, ← Finset.sum_add_distrib]
  simp only [add_smul]

/-! ### The systems -/

section

variable {ρ α : Type} [Scalar α]

/-- The **system of a user**. -/
def thetaSystem (background : Mat α n n) (beta : Factors α n) (rated : List Key) (c₀ c₁ : α) :
    Mat α n n := Mat.add background (beta.gramOn rated (c₁ - c₀))

/-- The **system of an item**. -/
def betaSystem (background : Mat α n n) (theta gamma : Factors α n) (raters : List Key)
    (row : Row ρ) (c₀ c₁ : α) : Mat α n n :=
  Mat.add background (if row.isEmpty then theta.gramOn raters (c₁ - c₀)
    else Mat.add (theta.gramOn raters (c₁ - c₀)) (gamma.gramOn (row.map Prod.fst) 1))

/-- The **system of an item as a neighbour**. -/
def gammaSystem (beta : Factors α n) (row : Row ρ) (ridge : α) : Mat α n n :=
  Mat.addRidge (beta.gramOn ((row.map Prod.fst).filter fun j => decide (j ∈ beta)) 1) ridge

end

theorem toMatrix_thetaSystem (beta : Factors ℝ n) (rated : List Key) (c₀ c₁ ridge : ℝ) :
    (thetaSystem (beta.background c₀ ridge) beta rated c₀ c₁).toMatrix
      = observedMatrix beta rated c₀ c₁ ridge :=
  (Mat.toMatrix_add _ _).trans (toMatrix_background_add beta rated c₀ c₁ ridge)

theorem toMatrix_betaSystem (theta gamma : Factors ℝ n) (raters : List Key) (row : Row ℝ)
    (c₀ c₁ ridge : ℝ) :
    (betaSystem (theta.background c₀ ridge) theta gamma raters row c₀ c₁).toMatrix
      = observedMatrix theta raters c₀ c₁ ridge + rowMatrix gamma row := by
  have hcorr : (if row.isEmpty then theta.gramOn raters (c₁ - c₀)
      else Mat.add (theta.gramOn raters (c₁ - c₀)) (gamma.gramOn (row.map Prod.fst) 1)).toMatrix
        = (theta.gramOn raters (c₁ - c₀)).toMatrix + rowMatrix gamma row := by
    cases row with
    | nil => exact (add_zero _).symm
    | cons e row =>
        rw [List.isEmpty_cons, if_neg Bool.false_ne_true, Mat.toMatrix_add,
          Factors.toMatrix_gramOn gamma, one_smul, List.map_map]
        rfl
  rw [betaSystem, Mat.toMatrix_add, hcorr, ← add_assoc, toMatrix_background_add]

theorem toMatrix_gammaSystem (beta : Factors ℝ n) (row : Row ℝ) (ridge : ℝ) :
    (gammaSystem beta row ridge).toMatrix
      = rowMatrix beta row + ridge • (1 : Matrix (Fin n) (Fin n) ℝ) := by
  rw [gammaSystem, Mat.toMatrix_addRidge, Factors.toMatrix_gramOn, one_smul, sum_map_filter,
    List.map_map]
  · rfl
  · intro j _ hj
    rw [Factors.vectorAt_of_not_mem (of_decide_eq_false hj), outer_zero]

/-! ### Vectors -/

/-- The best vector of a **user** is the solution of the user's system. -/
theorem newTheta_eq_ok_iff {rated : List Key} {beta : Factors ℝ n} {c₀ c₁ ridge : ℝ}
    {v : Vec ℝ n} :
    newTheta rated beta (beta.background c₀ ridge) c₀ c₁ = .ok v
      ↔ (observedMatrix beta rated c₀ c₁ ridge).PosDef ∧
        observedMatrix beta rated c₀ c₁ ridge *ᵥ v.coords = observedTarget beta rated c₁ := by
  have hM := toMatrix_thetaSystem beta rated c₀ c₁ ridge
  have hb : (weightedSum rated beta c₁).coords = observedTarget beta rated c₁ :=
    coords_weightedSum_eq_sum rated beta c₁
  rw [← hM, ← hb]
  exact solveSystem_eq_ok_iff (hM ▸ isSymm_observedMatrix beta rated c₀ c₁ ridge)

/-- What a bias leaves of a weight. -/
noncomputable def restOf (own other : Option (Table Key (Bias ℝ))) (globalBias : ℝ) (k j : Key)
    (w : ℝ) : ℝ :=
  w - (biasOf own k).scalar - (biasOf other j).scalar - globalBias

/-- The rows that the updates read hold what the biases leave of the weights. -/
theorem coords_pull_rest (k : Key) (row : Row ℝ) (own other : Option (Table Key (Bias ℝ)))
    (W : Factors ℝ n) (globalBias : ℝ) :
    (pull (row.map fun e => (e.1, e.2 - (biasOf own k).scalar - (biasOf other e.1).scalar)) W
      globalBias).coords = rowTarget W row (restOf own other globalBias k) := by
  rw [coords_pull, List.map_map]
  rfl

/-- The best vector of an **item** is the solution of the item's system. -/
theorem newBeta_eq_ok_iff {item : Key} {raters : List Key} {row : Row ℝ}
    {theta gamma : Factors ℝ n} {betaBias gammaBias : Option (Table Key (Bias ℝ))}
    {c₀ c₁ ridge globalBias : ℝ} {v : Vec ℝ n} :
    newBeta item raters row theta gamma betaBias gammaBias (theta.background c₀ ridge) c₀ c₁
        globalBias = .ok v
      ↔ (observedMatrix theta raters c₀ c₁ ridge + rowMatrix gamma row).PosDef ∧
        (observedMatrix theta raters c₀ c₁ ridge + rowMatrix gamma row) *ᵥ v.coords
          = observedTarget theta raters c₁
            + rowTarget gamma row (restOf betaBias gammaBias globalBias item) := by
  rw [newBeta, unexplained_scalars]
  have hM := toMatrix_betaSystem theta gamma raters row c₀ c₁ ridge
  have hb : (Vec.add (weightedSum raters theta c₁)
      (pull (row.map fun e => (e.1, e.2 - (biasOf betaBias item).scalar
        - (biasOf gammaBias e.1).scalar)) gamma globalBias)).coords
      = observedTarget theta raters c₁
        + rowTarget gamma row (restOf betaBias gammaBias globalBias item) := by
    rw [Vec.coords_add, coords_weightedSum_eq_sum, coords_pull_rest]
    rfl
  rw [← hM, ← hb]
  exact solveSystem_eq_ok_iff
    (hM ▸ (isSymm_observedMatrix theta raters c₀ c₁ ridge).add (isSymm_rowMatrix gamma row))

/-- Some key in a row **has a vector**. -/
def HasNeighbor (W : Factors ℝ n) (row : Row ℝ) : Prop := ∃ e ∈ row, e.1 ∈ W

/-- The registered keys of a row are none exactly if no key of the row has a vector. -/
theorem isEmpty_neighbors (W : Factors ℝ n) (row : Row ℝ) :
    ((row.map Prod.fst).filter fun j => decide (j ∈ W)).isEmpty = false ↔ HasNeighbor W row := by
  rw [List.isEmpty_eq_false_iff_exists_mem]
  constructor
  · rintro ⟨j, hj⟩
    obtain ⟨hj, hW⟩ := List.mem_filter.1 hj
    obtain ⟨e, he, rfl⟩ := List.mem_map.1 hj
    exact ⟨e, he, of_decide_eq_true hW⟩
  · rintro ⟨e, he, hW⟩
    exact ⟨e.1, List.mem_filter.2 ⟨List.mem_map_of_mem he, decide_eq_true hW⟩⟩

/-- Where no neighbour has a vector, an item is given none **as a neighbour**. -/
theorem newGamma_of_not_hasNeighbor {item : Key} {row : Row ℝ} {beta : Factors ℝ n}
    (h : ¬ HasNeighbor beta row) (betaBias gammaBias : Option (Table Key (Bias ℝ)))
    (ridge globalBias : ℝ) :
    newGamma item row beta betaBias gammaBias ridge globalBias = .ok none := by
  have hempty : ((row.map Prod.fst).filter fun j => decide (j ∈ beta)).isEmpty = true := by
    rw [← Bool.not_eq_false, isEmpty_neighbors]
    exact h
  exact if_pos hempty

theorem map_some_eq_ok_iff {ε α : Type} {x : Except ε α} {o : Option α} :
    x.map some = .ok o ↔ ∃ v, o = some v ∧ x = .ok v := by
  cases x with
  | error e =>
      constructor
      · intro h
        cases h
      · rintro ⟨v, -, h⟩
        cases h
  | ok v =>
      constructor
      · intro h
        exact ⟨v, (Except.ok.inj h).symm, rfl⟩
      · rintro ⟨v', rfl, h⟩
        obtain rfl := Except.ok.inj h
        rfl

/-- Where some neighbour has a vector, the best vector of an item **as a neighbour** is the
solution of a system. -/
theorem newGamma_eq_ok_iff {item : Key} {row : Row ℝ} {beta : Factors ℝ n}
    (h : HasNeighbor beta row) {betaBias gammaBias : Option (Table Key (Bias ℝ))}
    {ridge globalBias : ℝ} {o : Option (Vec ℝ n)} :
    newGamma item row beta betaBias gammaBias ridge globalBias = .ok o
      ↔ ∃ v, o = some v ∧
        (rowMatrix beta row + ridge • (1 : Matrix (Fin n) (Fin n) ℝ)).PosDef ∧
        (rowMatrix beta row + ridge • (1 : Matrix (Fin n) (Fin n) ℝ)) *ᵥ v.coords
          = rowTarget beta row (restOf gammaBias betaBias globalBias item) := by
  have hne := (isEmpty_neighbors beta row).2 h
  have hM := toMatrix_gammaSystem beta row ridge
  have hb := coords_pull_rest item row gammaBias betaBias beta globalBias
  have hsymm := hM ▸ (isSymm_rowMatrix beta row).add (isSymm_one.smul ridge)
  rw [newGamma, unexplained_scalars]
  simp only [hne, Bool.false_eq_true, if_false]
  change Except.map some (solveSystem (gammaSystem beta row ridge) _) = .ok o ↔ _
  rw [← hM, ← hb, map_some_eq_ok_iff]
  exact exists_congr fun v => and_congr_right fun _ => solveSystem_eq_ok_iff hsymm

/-! ### Systems with a solution -/

theorem posDef_ridge {ridge : ℝ} (h : 0 < ridge) :
    (ridge • (1 : Matrix (Fin n) (Fin n) ℝ)).PosDef :=
  PosDef.one.smul h

/-- The matrix of the preferences is positive definite where **no confidence is negative**. -/
theorem posDef_observedMatrix_of_nonneg (W : Factors ℝ n) {ks : List Key} {c₀ c₁ ridge : ℝ}
    (h : ∀ k, 0 ≤ c₀ + (ks.count k : ℝ) * (c₁ - c₀)) (hridge : 0 < ridge) :
    (observedMatrix W ks c₀ c₁ ridge).PosDef :=
  PosDef.posSemidef_add (posSemidef_sum _ fun k _ => (posSemidef_outer _).smul (h k))
    (posDef_ridge hridge)

/-- The matrix of the preferences is **positive definite**: on each key the correction turns
the confidence of the background into that of an observed pair, and neither is negative. -/
theorem posDef_observedMatrix (W : Factors ℝ n) {ks : List Key} (hks : ks.Nodup) {c₀ c₁ ridge : ℝ}
    (hc₀ : 0 ≤ c₀) (hc₁ : 0 ≤ c₁) (hridge : 0 < ridge) :
    (observedMatrix W ks c₀ c₁ ridge).PosDef := by
  refine posDef_observedMatrix_of_nonneg W (fun k => ?_) hridge
  have hle := List.nodup_iff_count_le_one.1 hks k
  rcases Nat.le_one_iff_eq_zero_or_eq_one.1 hle with h | h
  · rw [h, Nat.cast_zero, zero_mul, add_zero]
    exact hc₀
  · rw [h, Nat.cast_one, one_mul, add_sub_cancel]
    exact hc₁

theorem posSemidef_rowMatrix (W : Factors ℝ n) (row : Row ℝ) : (rowMatrix W row).PosSemidef :=
  posSemidef_sum_outer (fun e : Key × ℝ => W.vectorAt e.1) row

/-- A system with a positive definite matrix has a solution. -/
theorem exists_mulVec_eq {A : Matrix (Fin n) (Fin n) ℝ} (hA : A.PosDef) (b : Fin n → ℝ) :
    ∃ v : Vec ℝ n, A *ᵥ v.coords = b := by
  obtain ⟨x, hx⟩ := mulVec_surjective_iff_isUnit.2 hA.isUnit b
  exact ⟨Vec.ofCoords x, by rw [Vec.coords_ofCoords, hx]⟩

/-! ### Biases -/

/-- What is **left of the weights** of those neighbours in a row that have a vector. -/
noncomputable def residuals (x : Fin n → ℝ) (row : Row ℝ) (W : Factors ℝ n)
    (rest : ℝ → Key → ℝ → ℝ) : List ℝ :=
  (row.filter fun e => decide (e.1 ∈ W)).map fun e => rest e.2 e.1 (x ⬝ᵥ W.vectorAt e.1)

/-- There is something left exactly if some neighbour has a vector. -/
theorem residuals_ne_nil_iff {x : Fin n → ℝ} {row : Row ℝ} {W : Factors ℝ n}
    {rest : ℝ → Key → ℝ → ℝ} : residuals x row W rest ≠ [] ↔ HasNeighbor W row := by
  rw [residuals, Ne, List.map_eq_nil_iff]
  constructor
  · intro hne
    obtain ⟨e, he⟩ := List.exists_mem_of_ne_nil _ hne
    obtain ⟨he, hW⟩ := List.mem_filter.1 he
    exact ⟨e, he, of_decide_eq_true hW⟩
  · rintro ⟨e, he, hW⟩
    exact List.ne_nil_of_mem (List.mem_filter.2 ⟨he, decide_eq_true hW⟩)

/-- A sum over what is left of the weights in a row, **by key**. -/
theorem sum_residuals (x : Fin n → ℝ) (row : Row ℝ) (W : Factors ℝ n)
    (rest : ℝ → Key → ℝ → ℝ) (f : ℝ → ℝ) :
    ((residuals x row W rest).map f).sum = ∑ j ∈ W.domain,
      ((weightsOf row j).map fun w => f (rest w j (x ⬝ᵥ W.vectorAt j))).sum := by
  have hout : ∀ j, j ∉ W.domain → ∀ w,
      (if j ∈ W then f (rest w j (x ⬝ᵥ W.vectorAt j)) else 0) = 0 :=
    fun j hj w => if_neg fun hmem => hj (Table.mem_domain.2 hmem)
  have hrow := sum_map_eq_sum_weightsOf W.domain row _ hout
  have hfilter := sum_map_filter (fun e : Key × ℝ => decide (e.1 ∈ W)) row
    (fun e => if e.1 ∈ W then f (rest e.2 e.1 (x ⬝ᵥ W.vectorAt e.1)) else 0)
    fun e _ he => if_neg (of_decide_eq_false he)
  have hin : ∀ e ∈ row.filter fun e => decide (e.1 ∈ W),
      (f ∘ fun e => rest e.2 e.1 (x ⬝ᵥ W.vectorAt e.1)) e
        = if e.1 ∈ W then f (rest e.2 e.1 (x ⬝ᵥ W.vectorAt e.1)) else 0 :=
    fun e he => (if_pos (of_decide_eq_true (List.mem_filter.1 he).2)).symm
  rw [residuals, List.map_map, List.map_congr_left hin, hfilter, hrow]
  refine Finset.sum_congr rfl fun j hj => ?_
  simp only [Table.mem_domain.1 hj, if_true]

/-- The mean of a list of numbers, if there are any. -/
noncomputable def meanOf (rs : List ℝ) : Option ℝ :=
  if rs = [] then none else some (rs.sum / rs.length)

/-- A tally of a list of numbers, on top of another one. -/
noncomputable def Tally.addAll (t : Tally ℝ) (rs : List ℝ) : Tally ℝ :=
  ⟨t.sum + rs.sum, t.count + rs.length⟩

theorem Tally.addAll_nil (t : Tally ℝ) : t.addAll [] = t := by
  rw [addAll, List.sum_nil, add_zero]
  rfl

theorem Tally.addAll_cons (t : Tally ℝ) (r : ℝ) (rs : List ℝ) :
    t.addAll (r :: rs) = (t.add r).addAll rs := by
  rw [addAll, addAll, List.sum_cons, List.length_cons, ← add_assoc, add_comm rs.length 1,
    ← add_assoc]
  rfl

theorem Tally.addAll_append (t : Tally ℝ) (rs ss : List ℝ) :
    t.addAll (rs ++ ss) = (t.addAll rs).addAll ss := by
  simp only [addAll, List.sum_append, List.length_append, add_assoc]

/-- The mean of a tally is the mean of its numbers. -/
theorem Tally.mean?_addAll (rs : List ℝ) : (Tally.empty.addAll rs).mean? = meanOf rs := by
  cases rs with
  | nil => rfl
  | cons r rs =>
      have hcount : (Tally.empty.addAll (r :: rs)).count ≠ 0 := by simp [addAll, empty]
      have hne : r :: rs ≠ [] := List.cons_ne_nil r rs
      rw [mean?, if_neg hcount, meanOf, if_neg hne]
      simp only [addAll, empty, zero_add, Scalar.ofNat_real]

/-- Tallying a row tallies **its residuals**. -/
theorem tallyRow_eq (v : Vec ℝ n) (row : Row ℝ) (W : Factors ℝ n) (rest : ℝ → Key → ℝ → ℝ)
    (t : Tally ℝ) :
    tallyRow v row W rest t = .ok (t.addAll (residuals v.coords row W rest)) := by
  induction row generalizing t with
  | nil => rw [residuals, List.filter_nil, List.map_nil, Tally.addAll_nil]; rfl
  | cons e row ih =>
      rw [tallyRow, List.foldlM_cons]
      cases hw : W.get? e.1 with
      | none =>
          have hmem : e.1 ∉ W := Table.get?_eq_none_iff.1 hw
          have hres : residuals v.coords (e :: row) W rest = residuals v.coords row W rest := by
            rw [residuals, List.filter_cons, if_neg (by simpa using hmem)]
            rfl
          rw [hres]
          exact ih t
      | some w =>
          have hmem : e.1 ∈ W := Table.mem_of_get? hw
          have hres : residuals v.coords (e :: row) W rest
              = rest e.2 e.1 (v.coords ⬝ᵥ w.coords) :: residuals v.coords row W rest := by
            rw [residuals, List.filter_cons, if_pos (by simpa using hmem), List.map_cons,
              Factors.vectorAt_of_get? hw]
            rfl
          rw [hres, Tally.addAll_cons, ← Vec.dot_eq]
          dsimp only
          rw [Vec.pairing_self v w]
          exact ih _

/-- The best **bias** of an item is the mean of the residuals of its row. -/
theorem newBias_eq (item : Key) (row : Row ℝ) (own others : Factors ℝ n)
    (otherBias : Option (Table Key (Bias ℝ))) (globalBias : ℝ) :
    newBias item row own others otherBias globalBias
      = .ok (if item ∈ own then meanOf (residuals (own.vectorAt item) row others
          fun w j p => w - p - (biasOf otherBias j).scalar - globalBias) else none) := by
  rw [newBias]
  cases hv : own.get? item with
  | none => rw [if_neg (Table.get?_eq_none_iff.1 hv)]
  | some v =>
      rw [if_pos (Table.mem_of_get? hv), Factors.vectorAt_of_get? hv, ← Tally.mean?_addAll]
      simp only [tallyRow_eq]
      rfl

/-- The residuals of the row of one item, for the **global bias**: none if the item has no
vector. -/
noncomputable def globalResiduals (rows : Table Key (Row ℝ)) (beta gamma : Factors ℝ n)
    (betaBias gammaBias : Option (Table Key (Bias ℝ))) (i : Key) : List ℝ :=
  if i ∈ beta then
    residuals (beta.vectorAt i) ((rows.get? i).getD []) gamma
      fun w j p => w - p - (biasOf betaBias i).scalar - (biasOf gammaBias j).scalar
  else []

/-- A loop whose steps tally a list of numbers tallies **all of them**. -/
theorem foldlM_addAll {κ : Type*} (step : Tally ℝ → κ → Except Fault (Tally ℝ))
    (f : κ → List ℝ) (hstep : ∀ t k, step t k = .ok (t.addAll (f k))) (ks : List κ)
    (t : Tally ℝ) : ks.foldlM step t = .ok (t.addAll (ks.flatMap f)) := by
  induction ks generalizing t with
  | nil => rw [List.flatMap_nil, Tally.addAll_nil]; rfl
  | cons k ks ih =>
      rw [List.foldlM_cons, hstep, List.flatMap_cons, Tally.addAll_append]
      exact ih _

/-- The best **global bias** is the mean of the residuals of all rows. -/
theorem newGlobalBias_eq (items : List Key) (rows : Table Key (Row ℝ)) (beta gamma : Factors ℝ n)
    (betaBias gammaBias : Option (Table Key (Bias ℝ))) :
    newGlobalBias items rows beta gamma betaBias gammaBias
      = .ok (meanOf (items.flatMap (globalResiduals rows beta gamma betaBias gammaBias))) := by
  rw [newGlobalBias, foldlM_addAll _ (globalResiduals rows beta gamma betaBias gammaBias),
    ← Tally.mean?_addAll]
  · rfl
  · intro t i
    rw [globalResiduals]
    cases hv : beta.get? i with
    | none => rw [if_neg (Table.get?_eq_none_iff.1 hv), Tally.addAll_nil]
    | some v =>
        rw [if_pos (Table.mem_of_get? hv), Factors.vectorAt_of_get? hv]
        cases hrow : rows.get? i with
        | none => exact congrArg Except.ok (Tally.addAll_nil t).symm
        | some row => exact tallyRow_eq v row gamma _ t

end CoEmbed
