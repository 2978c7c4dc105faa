import CoEmbed.Update
import CoEmbed.Proofs.Exact.Cholesky
import CoEmbed.Proofs.Table

/-!
# Parameter Vectors in Exact Arithmetic

A table of parameter vectors is a function from keys to vectors that vanishes outside the
table. A key without a vector therefore drops out of every sum of vectors by itself, and each
weighted sum of this library is a sum over the keys of its table.

* `outer` — the outer product of a vector with itself.
* `isSymm_sum_outer`, `posSemidef_sum_outer`, `dotProduct_sum_outer_mulVec` — sums of outer
  products, as matrices and as bilinear forms.
* `Factors.vectorAt` — the vector of a key, zero if it has none.
* `Factors.toMatrix_background`, `Factors.toMatrix_gramOn` — the two parts of a system.
* `coords_weightedSum`, `coords_pull` — the two parts of a right-hand side.
* `biasAt` — the scalar of a key's bias.
-/

open Matrix

namespace CoEmbed

variable {n : ℕ}

/-! ### Outer products -/

/-- The **outer product** of a vector with itself. -/
def outer (x : Fin n → ℝ) : Matrix (Fin n) (Fin n) ℝ := vecMulVec x x

@[simp] theorem outer_zero : outer (0 : Fin n → ℝ) = 0 := zero_vecMulVec 0

theorem isSymm_outer (x : Fin n → ℝ) : (outer x).IsSymm := transpose_vecMulVec x x

theorem posSemidef_outer (x : Fin n → ℝ) : (outer x).PosSemidef := by
  have h := posSemidef_vecMulVec_self_star x
  rwa [star_trivial] at h

/-- As a bilinear form an outer product **multiplies the scores** of two vectors. -/
theorem dotProduct_outer_mulVec (v x y : Fin n → ℝ) :
    x ⬝ᵥ outer v *ᵥ y = (v ⬝ᵥ x) * (v ⬝ᵥ y) := by
  rw [outer, vecMulVec_mulVec, op_smul_eq_smul, dotProduct_smul, smul_eq_mul, dotProduct_comm x v,
    mul_comm]

section

variable {κ : Type*} (f : κ → Fin n → ℝ) (ks : List κ)

theorem isSymm_sum_outer : (ks.map fun k => outer (f k)).sum.IsSymm := by
  induction ks with
  | nil => exact transpose_zero
  | cons k ks ih =>
      rw [List.map_cons, List.sum_cons]
      exact (isSymm_outer _).add ih

theorem posSemidef_sum_outer : (ks.map fun k => outer (f k)).sum.PosSemidef := by
  induction ks with
  | nil => exact PosSemidef.zero
  | cons k ks ih =>
      rw [List.map_cons, List.sum_cons]
      exact (posSemidef_outer _).add ih

/-- A sum of outer products as a **bilinear form**. -/
theorem dotProduct_sum_outer_mulVec (x y : Fin n → ℝ) :
    x ⬝ᵥ (ks.map fun k => outer (f k)).sum *ᵥ y
      = (ks.map fun k => (f k ⬝ᵥ x) * (f k ⬝ᵥ y)).sum := by
  induction ks with
  | nil => exact (congrArg (x ⬝ᵥ ·) (zero_mulVec y)).trans (dotProduct_zero x)
  | cons k ks ih =>
      rw [List.map_cons, List.sum_cons, List.map_cons, List.sum_cons, add_mulVec, dotProduct_add,
        dotProduct_outer_mulVec, ih]

end

/-! ### The vectors of a table -/

namespace Factors

/-- The **vector of a key**, zero if it has none. -/
noncomputable def vectorAt (W : Factors ℝ n) (k : Key) : Fin n → ℝ :=
  ((W.get? k).map Vec.coords).getD 0

theorem vectorAt_of_get? {W : Factors ℝ n} {k : Key} {v : Vec ℝ n} (h : W.get? k = some v) :
    W.vectorAt k = v.coords := by
  rw [vectorAt, h]
  rfl

theorem vectorAt_of_not_mem {W : Factors ℝ n} {k : Key} (h : k ∉ W) : W.vectorAt k = 0 := by
  rw [vectorAt, Table.get?_eq_none_iff.2 h]
  rfl

/-- Writing a vector changes the vector of its key. -/
theorem vectorAt_insert (W : Factors ℝ n) (k : Key) (v : Vec ℝ n) :
    vectorAt (W.insert k v) = Function.update W.vectorAt k v.coords := by
  funext j
  rw [vectorAt, Table.get?_insert, Function.update_apply]
  by_cases h : j = k
  · rw [if_pos h, if_pos h]
    rfl
  · rw [if_neg h, if_neg h]
    rfl

/-- A sum over the vectors of a table, **by key**. -/
theorem sum_values {M : Type*} [AddCommMonoid M] (W : Factors ℝ n) (f : (Fin n → ℝ) → M) :
    (W.values.map fun v => f v.coords).sum = ∑ k ∈ W.domain, f (W.vectorAt k) := by
  rw [Table.values, List.map_map]
  have h := W.sum_entries fun _ v => f ((v.map Vec.coords).getD 0)
  exact h

/-- A sum over the vectors of a list of keys; a key **without a vector** adds what zero
does. -/
theorem sum_present {M : Type*} [AddCommMonoid M] (W : Factors ℝ n) (ks : List Key)
    (f : (Fin n → ℝ) → M) (hf : f 0 = 0) :
    ((W.present ks).map fun v => f v.coords).sum = (ks.map fun k => f (W.vectorAt k)).sum := by
  induction ks with
  | nil => rfl
  | cons k ks ih =>
      rw [present] at ih ⊢
      rw [List.filterMap_cons, List.map_cons, List.sum_cons, ← ih]
      cases hk : W.get? k with
      | none => rw [vectorAt, hk, Option.map_none, Option.getD_none, hf, zero_add]
      | some v => rw [vectorAt_of_get? hk, List.map_cons, List.sum_cons]

/-- The Gram matrix of a list of keys is a sum over the list. -/
theorem toMatrix_gramOn (W : Factors ℝ n) (ks : List Key) (c : ℝ) :
    (W.gramOn ks c).toMatrix = c • (ks.map fun k => outer (W.vectorAt k)).sum := by
  have hgram : (W.gramOn ks c).toMatrix = c • (Mat.gram (W.present ks)).toMatrix := by
    rw [gramOn]
    cases W.present ks with
    | nil => rw [Mat.toMatrix_zero, Mat.toMatrix_gram, List.map_nil, List.sum_nil, smul_zero]
    | cons v vs => exact Mat.toMatrix_smul c _
  rw [hgram, Mat.toMatrix_gram, ← W.sum_present ks outer outer_zero]
  rfl

/-- The Gram matrix of a list of keys, **by key**. -/
theorem toMatrix_gramOn_eq_sum (W : Factors ℝ n) (ks : List Key) (c : ℝ) :
    (W.gramOn ks c).toMatrix
      = ∑ k ∈ W.domain, ((ks.count k : ℝ) * c) • outer (W.vectorAt k) := by
  rw [toMatrix_gramOn, sum_map_eq_sum_count W.domain, Finset.smul_sum]
  · refine Finset.sum_congr rfl fun k _ => ?_
    rw [← Nat.cast_smul_eq_nsmul ℝ, smul_smul, mul_comm c]
  · intro k hk
    rw [vectorAt_of_not_mem fun h => hk (Table.mem_domain.2 h), outer_zero]

/-- The background of a sweep, **by key**. -/
theorem toMatrix_background (W : Factors ℝ n) (c ridge : ℝ) :
    (W.background c ridge).toMatrix
      = ∑ k ∈ W.domain, c • outer (W.vectorAt k)
        + ridge • (1 : Matrix (Fin n) (Fin n) ℝ) := by
  rw [background, Mat.toMatrix_addRidge, gram, Mat.toMatrix_smul, Mat.toMatrix_gram,
    ← Finset.smul_sum, ← W.sum_values outer]
  rfl

end Factors

/-! ### Right-hand sides and biases -/

/-- A loop whose steps add a vector ends at the **sum** of what its steps add. -/
theorem coords_foldl {κ : Type*} (step : Vec ℝ n → κ → Vec ℝ n) (f : κ → Fin n → ℝ)
    (hstep : ∀ u k, (step u k).coords = u.coords + f k) (ks : List κ) (u : Vec ℝ n) :
    (ks.foldl step u).coords = u.coords + (ks.map f).sum := by
  induction ks generalizing u with
  | nil => exact (add_zero _).symm
  | cons k ks ih => rw [List.foldl_cons, ih, hstep, List.map_cons, List.sum_cons, add_assoc]

/-- The sum of the vectors of a list of keys is a sum over the list. -/
theorem coords_weightedSum (ks : List Key) (W : Factors ℝ n) (c : ℝ) :
    (weightedSum ks W c).coords = (ks.map fun k => c • W.vectorAt k).sum := by
  rw [weightedSum, coords_foldl _ fun k => c • W.vectorAt k, Vec.coords_zero, zero_add]
  intro u k
  cases hk : W.get? k with
  | none => rw [Factors.vectorAt, hk, Option.map_none, Option.getD_none, smul_zero, add_zero]
  | some v => rw [Factors.vectorAt_of_get? hk, Vec.coords_addScaled]

/-- The sum of the vectors of a list of keys, **by key**. -/
theorem coords_weightedSum_eq_sum (ks : List Key) (W : Factors ℝ n) (c : ℝ) :
    (weightedSum ks W c).coords
      = ∑ k ∈ W.domain, ((ks.count k : ℝ) * c) • W.vectorAt k := by
  rw [coords_weightedSum, sum_map_eq_sum_count W.domain]
  · refine Finset.sum_congr rfl fun k _ => ?_
    rw [← Nat.cast_smul_eq_nsmul ℝ, smul_smul]
  · intro k hk
    rw [Factors.vectorAt_of_not_mem fun h => hk (Table.mem_domain.2 h), smul_zero]

/-- What the neighbours in a row ask of a vector is a sum over the row. -/
theorem coords_pull (row : Row ℝ) (W : Factors ℝ n) (globalBias : ℝ) :
    (pull row W globalBias).coords
      = (row.map fun e => (e.2 - globalBias) • W.vectorAt e.1).sum := by
  rw [pull, coords_foldl _ fun e => (e.2 - globalBias) • W.vectorAt e.1, Vec.coords_zero, zero_add]
  intro u e
  cases hk : W.get? e.1 with
  | none => rw [Factors.vectorAt, hk, Option.map_none, Option.getD_none, smul_zero, add_zero]
  | some v => rw [Factors.vectorAt_of_get? hk, Vec.coords_addScaled]

/-- The **scalar of the bias** of a key; zero if it has none. -/
noncomputable def biasAt (t : Table Key (Bias ℝ)) (k : Key) : ℝ := (biasOf (some t) k).scalar

/-- Writing a bias changes the bias of its key. -/
theorem biasAt_insert (t : Table Key (Bias ℝ)) (k : Key) (x : ℝ) :
    biasAt (t.insert k (.real x)) = Function.update (biasAt t) k x := by
  funext j
  rw [biasAt, biasOf, Table.get?_insert, Function.update_apply]
  by_cases h : j = k
  · rw [if_pos h, if_pos h]
    rfl
  · rw [if_neg h, if_neg h]
    rfl

end CoEmbed
