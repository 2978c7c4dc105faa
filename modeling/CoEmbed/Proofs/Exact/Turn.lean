import CoEmbed.Proofs.Exact.Update
import CoEmbed.Proofs.Outcome

/-!
# Turned Bases

Vectors enter an update through their inner products alone. Where all of them are multiplied by one
orthogonal matrix, every system is conjugated by it, its right-hand side and its solution are
multiplied by it, and every bias is what it was.

* `Vec.turned`, `Factors.turned` — vectors in the turned basis.
* `Vec.dot_turned` — inner products are kept.
* `Mat.Turns` — a matrix in the turned basis, and how systems are put together from such matrices.
* `mirrored_solveSystem` — a system is solved in either basis, or in neither.
* `mirrored_newTheta`, `mirrored_newBeta`, `mirrored_newGamma` — the vectors turn.
* `newBias_turned`, `newGlobalBias_turned` — the biases stay.

## Pivot convention

A matrix that is not positive definite is not so in any basis, but its factorisation may break down
at another pivot. Faults are therefore compared by their kinds.
-/

open Matrix

namespace CoEmbed

variable {n : ℕ} (Q : orthogonalGroup (Fin n) ℝ)

/-! ### Vectors -/

/-- A vector in the **turned basis**. -/
noncomputable def Vec.turned (v : Vec ℝ n) : Vec ℝ n := ofCoords (Q.1 *ᵥ v.coords)

@[simp] theorem Vec.coords_turned (v : Vec ℝ n) : (v.turned Q).coords = Q.1 *ᵥ v.coords :=
  coords_ofCoords _

theorem mul_transpose_turn : Q.1 * Q.1ᵀ = 1 := (mem_orthogonalGroup_iff (Fin n) ℝ).1 Q.2

theorem transpose_mul_turn : Q.1ᵀ * Q.1 = 1 := (mem_orthogonalGroup_iff' (Fin n) ℝ).1 Q.2

/-- Inner products are **kept**. -/
theorem dotProduct_turn (x y : Fin n → ℝ) : (Q.1 *ᵥ x) ⬝ᵥ (Q.1 *ᵥ y) = x ⬝ᵥ y := by
  rw [dotProduct_mulVec, ← vecMul_transpose, vecMul_vecMul, transpose_mul_turn, vecMul_one]

theorem Vec.dot_turned (u v : Vec ℝ n) : dot (u.turned Q) (v.turned Q) = dot u v := by
  rw [dot_eq, dot_eq, coords_turned, coords_turned, dotProduct_turn]

theorem outer_turn (x : Fin n → ℝ) : outer (Q.1 *ᵥ x) = Q.1 * outer x * Q.1ᵀ := by
  rw [outer, outer, mul_vecMulVec, vecMulVec_mul, vecMul_transpose]

/-- A sum of vectors **turns term by term**. -/
theorem sum_turn (xs : List (Fin n → ℝ)) : (xs.map fun x => Q.1 *ᵥ x).sum = Q.1 *ᵥ xs.sum :=
  (map_list_sum (mulVecLin Q.1) xs).symm

/-- A sum of outer products turns term by term. -/
theorem sum_outer_turn (xs : List (Fin n → ℝ)) :
    (xs.map fun x => outer (Q.1 *ᵥ x)).sum = Q.1 * (xs.map outer).sum * Q.1ᵀ := by
  induction xs with
  | nil => simp
  | cons x xs ih =>
      rw [List.map_cons, List.sum_cons, ih, outer_turn, List.map_cons, List.sum_cons, mul_add,
        add_mul]

/-! ### Tables of vectors -/

namespace Factors

/-- A table of vectors in the **turned basis**. -/
noncomputable def turned (W : Factors ℝ n) : Factors ℝ n := W.mapValues fun _ => Vec.turned Q

variable (W : Factors ℝ n)

@[simp] theorem keys_turned : Table.keys (W.turned Q) = W.keys := Table.keys_mapValues _ W

theorem get?_turned (k : Key) : Table.get? (W.turned Q) k = (W.get? k).map (Vec.turned Q) :=
  Table.get?_mapValues _ W k

@[simp] theorem mem_turned {k : Key} : k ∈ W.turned Q ↔ k ∈ W := Table.mem_mapValues

@[simp] theorem domain_turned : Table.domain (W.turned Q) = W.domain := by
  rw [Table.domain, keys_turned, Table.domain]

@[simp] theorem size_turned : Table.size (W.turned Q) = W.size := by
  rw [turned, Table.mapValues, Table.size, List.length_map, Table.size]

theorem values_turned : Table.values (W.turned Q) = W.values.map (Vec.turned Q) := by
  rw [turned, Table.mapValues, Table.values, Table.values, List.map_map, List.map_map]
  rfl

theorem turned_insert (k : Key) (v : Vec ℝ n) :
    turned Q (W.insert k v) = Table.insert (W.turned Q) k (v.turned Q) :=
  Table.mapValues_insert _ W k v

theorem vectorAt_turned (k : Key) : (W.turned Q).vectorAt k = Q.1 *ᵥ W.vectorAt k := by
  rw [vectorAt, vectorAt, get?_turned]
  cases W.get? k with
  | none => exact (mulVec_zero Q.1).symm
  | some v => exact Vec.coords_turned Q v

end Factors

/-! ### Systems -/

/-- `A'` is the symmetric matrix `A` **in the turned basis**. -/
structure Mat.Turns (A A' : Mat ℝ n n) : Prop where
  symm : A.toMatrix.IsSymm
  turned : A'.toMatrix = Q.1 * A.toMatrix * Q.1ᵀ

namespace Mat.Turns

variable {Q} {A A' B B' : Mat ℝ n n}

theorem add (hA : Turns Q A A') (hB : Turns Q B B') : Turns Q (Mat.add A B) (Mat.add A' B') where
  symm := by
    rw [toMatrix_add]
    exact hA.symm.add hB.symm
  turned := by rw [toMatrix_add, toMatrix_add, hA.turned, hB.turned, mul_add, add_mul]

theorem smul (hA : Turns Q A A') (c : ℝ) : Turns Q (Mat.smul c A) (Mat.smul c A') where
  symm := by
    rw [toMatrix_smul]
    exact hA.symm.smul c
  turned := by rw [toMatrix_smul, toMatrix_smul, hA.turned, Matrix.mul_smul, Matrix.smul_mul]

/-- A ridge is the same **in every basis**. -/
theorem addRidge (hA : Turns Q A A') (c : ℝ) : Turns Q (Mat.addRidge A c) (Mat.addRidge A' c) where
  symm := by
    rw [toMatrix_addRidge]
    exact hA.symm.add (isSymm_one.smul c)
  turned := by
    rw [toMatrix_addRidge, toMatrix_addRidge, hA.turned, mul_add, add_mul, Matrix.mul_smul,
      Matrix.mul_one, Matrix.smul_mul, mul_transpose_turn]

variable (Q)

theorem gram (vs : List (Vec ℝ n)) : Turns Q (Mat.gram vs) (Mat.gram (vs.map (Vec.turned Q))) where
  symm := by
    rw [toMatrix_gram]
    exact isSymm_sum_outer Vec.coords vs
  turned := by
    have h := sum_outer_turn Q (vs.map Vec.coords)
    rw [List.map_map, List.map_map] at h
    rw [toMatrix_gram, toMatrix_gram, List.map_map]
    refine Eq.trans (congrArg List.sum (List.map_congr_left fun v _ => ?_)) h
    exact congrArg outer (Vec.coords_turned Q v)

end Mat.Turns

namespace Factors

variable (W : Factors ℝ n)

theorem present_turned (ks : List Key) :
    (W.turned Q).present ks = (W.present ks).map (Vec.turned Q) := by
  rw [present, present, List.map_filterMap]
  exact List.filterMap_congr fun k _ => W.get?_turned Q k

theorem turns_gramOn (ks : List Key) (c : ℝ) :
    Mat.Turns Q (W.gramOn ks c) ((W.turned Q).gramOn ks c) := by
  rw [gramOn, gramOn, present_turned]
  cases W.present ks with
  | nil => exact ⟨by rw [Mat.toMatrix_zero]; exact transpose_zero, by simp⟩
  | cons v vs => exact (Mat.Turns.gram Q (v :: vs)).smul c

/-- The **background** of a sweep in the turned basis. -/
theorem turns_background (c ridge : ℝ) :
    Mat.Turns Q (W.background c ridge) ((W.turned Q).background c ridge) := by
  rw [background, background, Factors.gram, Factors.gram, values_turned]
  exact ((Mat.Turns.gram Q W.values).smul c).addRidge ridge

end Factors

/-- The sum of the vectors of a list of keys **turns**. -/
theorem weightedSum_turned (ks : List Key) (W : Factors ℝ n) (c : ℝ) :
    weightedSum ks (W.turned Q) c = (weightedSum ks W c).turned Q := by
  apply Vec.coords_injective
  rw [Vec.coords_turned, coords_weightedSum, coords_weightedSum, ← sum_turn, List.map_map]
  refine congrArg List.sum (List.map_congr_left fun k _ => ?_)
  rw [Function.comp_apply, W.vectorAt_turned, mulVec_smul]

/-- What the neighbours ask of a vector turns. -/
theorem pull_turned (row : Row ℝ) (W : Factors ℝ n) (globalBias : ℝ) :
    pull row (W.turned Q) globalBias = (pull row W globalBias).turned Q := by
  apply Vec.coords_injective
  rw [Vec.coords_turned, coords_pull, coords_pull, ← sum_turn, List.map_map]
  refine congrArg List.sum (List.map_congr_left fun e _ => ?_)
  rw [Function.comp_apply, W.vectorAt_turned, mulVec_smul]

theorem Vec.add_turned (u v : Vec ℝ n) :
    Vec.add (u.turned Q) (v.turned Q) = (Vec.add u v).turned Q := by
  apply coords_injective
  rw [coords_add, coords_turned, coords_turned, coords_turned, coords_add, mulVec_add]

/-- Whatever stops a system is the defect **of a system**. -/
theorem kind_of_solveSystem {M : Mat ℝ n n} {b : Vec ℝ n} {e : Fault}
    (h : solveSystem M b = .error e) : e.kind = .system := by
  rw [solveSystem] at h
  split at h
  · obtain rfl := Except.error.inj h
    rfl
  · split at h
    · cases h
    · obtain rfl := Except.error.inj h
      rfl

/-- A matrix is positive definite in **either basis, or in neither**. -/
theorem Mat.Turns.posDef_iff {A A' : Mat ℝ n n} (h : Mat.Turns Q A A') :
    A'.toMatrix.PosDef ↔ A.toMatrix.PosDef := by
  have hunit : IsUnit Q.1 := .of_mul_eq_one _ (mul_transpose_turn Q)
  have hstar : star Q.1 = Q.1ᵀ := conjTranspose_eq_transpose_of_trivial Q.1
  rw [h.turned, ← hstar]
  exact hunit.posDef_star_right_conjugate_iff

theorem Mat.Turns.isSymm {A A' : Mat ℝ n n} (h : Mat.Turns Q A A') : A'.toMatrix.IsSymm := by
  rw [h.turned, IsSymm, transpose_mul, transpose_mul, transpose_transpose, h.symm.eq, mul_assoc]

/-- A system is solved in either basis or in neither, and the solution **turns**. -/
theorem mirrored_solveSystem {A A' : Mat ℝ n n} (h : Mat.Turns Q A A') (b : Vec ℝ n) :
    Mirrored (Vec.turned Q) (solveSystem A b) (solveSystem A' (b.turned Q)) := by
  cases hx : solveSystem A b with
  | ok x =>
      obtain ⟨hpd, hsolves⟩ := (solveSystem_eq_ok_iff h.symm).1 hx
      have hturned : A'.toMatrix *ᵥ (x.turned Q).coords = (b.turned Q).coords := by
        rw [h.turned, Vec.coords_turned, Vec.coords_turned, mulVec_mulVec, mul_assoc, mul_assoc,
          transpose_mul_turn, mul_one, ← mulVec_mulVec, hsolves]
      rw [(solveSystem_eq_ok_iff h.isSymm).2 ⟨h.posDef_iff.2 hpd, hturned⟩]
      exact .ok x
  | error e =>
      cases hx' : solveSystem A' (b.turned Q) with
      | error e' => exact .error ((kind_of_solveSystem hx').trans (kind_of_solveSystem hx).symm)
      | ok x' =>
          have hpd := h.posDef_iff.1 ((solveSystem_eq_ok_iff h.isSymm).1 hx').1
          obtain ⟨x, hsolves⟩ := exists_mulVec_eq hpd b.coords
          rw [(solveSystem_eq_ok_iff h.symm).2 ⟨hpd, hsolves⟩] at hx
          cases hx

/-! ### Updates -/

/-- The best vector of a **user** turns. -/
theorem mirrored_newTheta {background background' : Mat ℝ n n}
    (h : Mat.Turns Q background background') (rated : List Key) (beta : Factors ℝ n) (c₀ c₁ : ℝ) :
    Mirrored (Vec.turned Q) (newTheta rated beta background c₀ c₁)
      (newTheta rated (beta.turned Q) background' c₀ c₁) := by
  rw [newTheta, newTheta, weightedSum_turned]
  exact mirrored_solveSystem Q (h.add (beta.turns_gramOn Q rated _)) _

/-- The best vector of an **item** turns. -/
theorem mirrored_newBeta {background background' : Mat ℝ n n}
    (h : Mat.Turns Q background background') (item : Key) (raters : List Key) (row : Row ℝ)
    (theta gamma : Factors ℝ n) (betaBias gammaBias : Option (Table Key (Bias ℝ)))
    (c₀ c₁ globalBias : ℝ) :
    Mirrored (Vec.turned Q)
      (newBeta item raters row theta gamma betaBias gammaBias background c₀ c₁ globalBias)
      (newBeta item raters row (theta.turned Q) (gamma.turned Q) betaBias gammaBias background' c₀
        c₁ globalBias) := by
  have hraters := theta.turns_gramOn Q raters (c₁ - c₀)
  rw [newBeta, newBeta, unexplained_scalars, unexplained_scalars]
  change Mirrored _ (solveSystem _ (Vec.add _ _)) (solveSystem _ (Vec.add _ _))
  rw [weightedSum_turned, pull_turned, Vec.add_turned]
  refine mirrored_solveSystem Q (h.add ?_) _
  split
  · exact hraters
  · exact hraters.add (gamma.turns_gramOn Q _ 1)

/-- The best vector of an item **as a neighbour** turns. -/
theorem mirrored_newGamma (item : Key) (row : Row ℝ) (beta : Factors ℝ n)
    (betaBias gammaBias : Option (Table Key (Bias ℝ))) (ridge globalBias : ℝ) :
    Mirrored (Option.map (Vec.turned Q))
      (newGamma item row beta betaBias gammaBias ridge globalBias)
      (newGamma item row (beta.turned Q) betaBias gammaBias ridge globalBias) := by
  rw [newGamma, newGamma, unexplained_scalars, unexplained_scalars]
  simp only [Factors.mem_turned]
  split
  · exact .ok none
  · change Mirrored _ (Except.map some (solveSystem _ (pull _ _ _)))
      (Except.map some (solveSystem _ (pull _ _ _)))
    rw [pull_turned]
    refine Mirrored.map ?_ (mirrored_solveSystem Q ((beta.turns_gramOn Q _ 1).addRidge ridge) _)
    exact fun _ => rfl

/-- What is left of the weights in a row is **the same in every basis**. -/
theorem residuals_turned (x : Fin n → ℝ) (row : Row ℝ) (W : Factors ℝ n)
    (rest : ℝ → Key → ℝ → ℝ) :
    residuals (Q.1 *ᵥ x) row (W.turned Q) rest = residuals x row W rest := by
  rw [residuals, residuals]
  simp only [Factors.mem_turned, Factors.vectorAt_turned, dotProduct_turn]

/-- The best **bias** stays. -/
theorem newBias_turned (item : Key) (row : Row ℝ) (own others : Factors ℝ n)
    (otherBias : Option (Table Key (Bias ℝ))) (globalBias : ℝ) :
    newBias item row (own.turned Q) (others.turned Q) otherBias globalBias
      = newBias item row own others otherBias globalBias := by
  rw [newBias_eq, newBias_eq, Factors.vectorAt_turned, residuals_turned]
  simp only [Factors.mem_turned]

/-- The best **global bias** stays. -/
theorem newGlobalBias_turned (items : List Key) (rows : Table Key (Row ℝ))
    (beta gamma : Factors ℝ n) (betaBias gammaBias : Option (Table Key (Bias ℝ))) :
    newGlobalBias items rows (beta.turned Q) (gamma.turned Q) betaBias gammaBias
      = newGlobalBias items rows beta gamma betaBias gammaBias := by
  have hitem : globalResiduals rows (beta.turned Q) (gamma.turned Q) betaBias gammaBias
      = globalResiduals rows beta gamma betaBias gammaBias := by
    funext i
    rw [globalResiduals, globalResiduals, Factors.vectorAt_turned, residuals_turned]
    simp only [Factors.mem_turned]
  rw [newGlobalBias_eq, newGlobalBias_eq, hitem]

end CoEmbed
