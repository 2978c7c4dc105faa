import CoEmbed.Proofs.Exact.Cholesky

/-!
# Pivots and Leading Minors

A factorisation that stops says where. Over the reals the place is the order of the first
leading principal minor that is not positive, and only the upper triangle has a say in it.

* `leadingMinor` — the determinant of the first rows and columns.
* `Eliminates.leadingMinor_succ` — a minor is the pivot times a minor of what is left.
* `FirstNonpositive` — the first leading minor that is not positive.
* `Triangle.ofMat_eq_error_iff` — where the factorisation of a symmetric matrix stops.
* `posDef_iff_leadingMinor_pos` — positive definiteness, read off the minors.
* `Mat.UpperEq`, `Triangle.ofMat_congr` — matrices with one upper triangle have one factor.
-/

open Matrix

namespace CoEmbed

variable {n : ℕ}

/-! ### Leading minors -/

/-- The **leading principal minor** of order `k`: the determinant of the first `k` rows and
columns. -/
noncomputable def leadingMinor (A : Matrix (Fin n) (Fin n) ℝ) (k : ℕ) (hk : k ≤ n) : ℝ :=
  (A.submatrix (Fin.castLE hk) (Fin.castLE hk)).det

@[simp] theorem leadingMinor_zero (A : Matrix (Fin n) (Fin n) ℝ) :
    leadingMinor A 0 n.zero_le = 1 := det_fin_zero

/-- The minor of order one is the **first pivot**. -/
theorem leadingMinor_one (A : Matrix (Fin (n + 1)) (Fin (n + 1)) ℝ) :
    leadingMinor A 1 (Nat.succ_le_succ n.zero_le) = A 0 0 := by
  rw [leadingMinor, det_fin_one]
  rfl

/-- Every leading minor of a positive definite matrix is positive. -/
theorem leadingMinor_pos {A : Matrix (Fin n) (Fin n) ℝ} (hA : A.PosDef) {k : ℕ} (hk : k ≤ n) :
    0 < leadingMinor A k hk :=
  (hA.submatrix (Fin.castLE_injective hk)).det_pos

namespace Eliminates

variable {A : Matrix (Fin (n + 1)) (Fin (n + 1)) ℝ} {r : ℝ} {row : Fin n → ℝ}
  {C : Matrix (Fin n) (Fin n) ℝ}

/-- The determinant is the **pivot times the determinant of what is left**. -/
theorem det_eq (h : Eliminates A r row C) : A.det = r * r * C.det := by
  -- the same determinant once multiples of the first row are taken off the others
  let B : Matrix (Fin (n + 1)) (Fin (n + 1)) ℝ :=
    Fin.cons (A 0) fun i => Fin.cons 0 (C i)
  have hB : A.det = B.det := by
    refine det_eq_of_forall_row_eq_smul_add_const (Fin.cons 0 fun i => row i / r) 0 rfl ?_
    intro i j
    refine Fin.cases ?_ (fun i => ?_) i
    · change A 0 j = A 0 j + 0 * A 0 j
      ring
    · refine Fin.cases ?_ (fun j => ?_) j
      · change A i.succ 0 = 0 + row i / r * A 0 0
        rw [h.symm.apply, h.first, h.pivot]
        field_simp [h.pos.ne']
        ring
      · change A i.succ j.succ = C i j + row i / r * A 0 j.succ
        rw [h.rest, h.first, ← mul_assoc, div_mul_cancel₀ _ h.pos.ne']
  have hrest : B.submatrix (Fin.succAbove 0) Fin.succ = C := rfl
  have hcolumn (i : Fin n) : B i.succ 0 = 0 := rfl
  rw [hB, det_succ_column_zero, Fin.sum_univ_succ, hrest, ← h.pivot]
  simp only [hcolumn, mul_zero, zero_mul, Finset.sum_const_zero, add_zero, Fin.val_zero, pow_zero,
    one_mul]
  rfl

/-- The first rows and columns are eliminated **by the same step**. -/
theorem leading (h : Eliminates A r row C) {k : ℕ} (hk : k ≤ n) :
    Eliminates (A.submatrix (Fin.castLE (Nat.succ_le_succ hk)) (Fin.castLE (Nat.succ_le_succ hk)))
      r (row ∘ Fin.castLE hk) (C.submatrix (Fin.castLE hk) (Fin.castLE hk)) where
  symm := h.symm.submatrix _
  pos := h.pos
  pivot := h.pivot
  first j := h.first (Fin.castLE hk j)
  rest i j := h.rest (Fin.castLE hk i) (Fin.castLE hk j)

/-- A leading minor is the pivot times the leading minor of what is left, **one order down**. -/
theorem leadingMinor_succ (h : Eliminates A r row C) {k : ℕ} (hk : k ≤ n) :
    leadingMinor A (k + 1) (Nat.succ_le_succ hk) = r * r * leadingMinor C k hk :=
  (h.leading hk).det_eq

end Eliminates

/-! ### The first minor that is not positive -/

/-- The leading minor of order `k` is the **first that is not positive**. -/
structure FirstNonpositive (A : Matrix (Fin n) (Fin n) ℝ) (k : ℕ) : Prop where
  le : k ≤ n
  nonpos : leadingMinor A k le ≤ 0
  before : ∀ j (hj : j < k), 0 < leadingMinor A j (hj.le.trans le)

namespace FirstNonpositive

variable {A : Matrix (Fin n) (Fin n) ℝ} {k l : ℕ}

/-- There is **at most one** such order. -/
theorem unique (hk : FirstNonpositive A k) (hl : FirstNonpositive A l) : k = l := by
  refine le_antisymm (not_lt.1 fun hlt => ?_) (not_lt.1 fun hlt => ?_)
  · exact absurd (hk.before l hlt) hl.nonpos.not_gt
  · exact absurd (hl.before k hlt) hk.nonpos.not_gt

/-- A positive definite matrix has no such order. -/
theorem not_posDef (h : FirstNonpositive A k) : ¬ A.PosDef := fun hA =>
  absurd (leadingMinor_pos hA h.le) h.nonpos.not_gt

end FirstNonpositive

/-- The first minor that is not positive, found in what is left, is **one order up** in the
matrix. -/
theorem Eliminates.firstNonpositive_succ {A : Matrix (Fin (n + 1)) (Fin (n + 1)) ℝ} {r : ℝ}
    {row : Fin n → ℝ} {C : Matrix (Fin n) (Fin n) ℝ} {k : ℕ} (h : Eliminates A r row C)
    (hC : FirstNonpositive C k) : FirstNonpositive A (k + 1) where
  le := Nat.succ_le_succ hC.le
  nonpos := by
    rw [h.leadingMinor_succ hC.le]
    exact mul_nonpos_of_nonneg_of_nonpos (mul_self_nonneg r) hC.nonpos
  before j hj := by
    cases j with
    | zero => simp
    | succ j =>
        have hj' : j < k := Nat.lt_of_succ_lt_succ hj
        rw [h.leadingMinor_succ (hj'.le.trans hC.le)]
        exact mul_pos (mul_pos h.pos h.pos) (hC.before j hj')

/-- Where the factorisation of a symmetric matrix **stops**, the first leading minor that is
not positive has been reached. -/
theorem Triangle.firstNonpositive_of_ofMat {n : ℕ} {M : Mat ℝ n n} (hM : M.toMatrix.IsSymm)
    {k : ℕ} (h : ofMat M = .error k) : FirstNonpositive M.toMatrix k := by
  -- one elimination at a time: what is left is symmetric again, and stops one order earlier
  induction n generalizing k with
  | zero => cases h
  | succ n ih =>
      by_cases hp : 0 < M.toMatrix 0 0
      · have step := eliminates hM hp
        rw [ofMat_of_pos hp] at h
        cases hrest : ofMat (complement M (firstRow M)) with
        | ok rest =>
            rw [hrest] at h
            cases h
        | error j =>
            rw [hrest] at h
            obtain rfl := Except.error.inj h
            exact step.firstNonpositive_succ (ih step.isSymm hrest)
      · rw [ofMat_of_nonpos hp] at h
        obtain rfl := Except.error.inj h
        refine ⟨Nat.succ_le_succ n.zero_le, ?_, fun j hj => ?_⟩
        · rw [leadingMinor_one]
          exact not_lt.1 hp
        · obtain rfl := Nat.lt_one_iff.1 hj
          simp

/-- **The factorisation of a symmetric matrix stops at the first leading minor that is not
positive**, and nowhere else. -/
theorem Triangle.ofMat_eq_error_iff {M : Mat ℝ n n} (hM : M.toMatrix.IsSymm) {k : ℕ} :
    ofMat M = .error k ↔ FirstNonpositive M.toMatrix k := by
  refine ⟨firstNonpositive_of_ofMat hM, fun h => ?_⟩
  cases hR : ofMat M with
  | ok R => exact absurd ((exists_ofMat_iff hM).1 ⟨R, hR⟩) h.not_posDef
  | error l => rw [(firstNonpositive_of_ofMat hM hR).unique h]

/-- A symmetric matrix is positive definite **exactly if** all its leading minors are
positive. -/
theorem posDef_iff_leadingMinor_pos {A : Matrix (Fin n) (Fin n) ℝ} (hA : A.IsSymm) :
    A.PosDef ↔ ∀ k (hk : k ≤ n), 0 < leadingMinor A k hk := by
  refine ⟨fun h k hk => leadingMinor_pos h hk, fun h => ?_⟩
  obtain ⟨M, rfl⟩ : ∃ M : Mat ℝ n n, M.toMatrix = A :=
    ⟨Mat.ofFn A, Mat.toMatrix_ofFn A⟩
  refine (Triangle.exists_ofMat_iff hA).1 ?_
  cases hR : Triangle.ofMat M with
  | ok R => exact ⟨R, rfl⟩
  | error k =>
      have hk := Triangle.firstNonpositive_of_ofMat hA hR
      exact absurd (h k hk.le) hk.nonpos.not_gt

/-! ### The upper triangle -/

section

variable {α : Type}

/-- Two matrices have the **same upper triangle**. -/
def Mat.UpperEq (M S : Mat α n n) : Prop := ∀ i j, i ≤ j → M.toMatrix i j = S.toMatrix i j

variable [Scalar α]

/-- What is left of two matrices with one upper triangle has one upper triangle. -/
theorem Mat.UpperEq.complement {M S : Mat α (n + 1) (n + 1)} (h : M.UpperEq S) (row : Vec α n) :
    (Triangle.complement M row).UpperEq (Triangle.complement S row) := by
  intro i j hij
  have hentry (A : Mat α (n + 1) (n + 1)) : (Triangle.complement A row).toMatrix i j
      = A.toMatrix i.succ j.succ - Vec.entry row i * Vec.entry row j :=
    congrFun (congrFun (Mat.toMatrix_ofFn _) i) j
  rw [hentry, hentry, h i.succ j.succ (Fin.succ_le_succ_iff.2 hij)]

/-- Matrices with one upper triangle have **one factor**, or stop at one place. -/
theorem Triangle.ofMat_congr {n : ℕ} {M S : Mat α n n} (h : M.UpperEq S) :
    ofMat M = ofMat S := by
  induction n with
  | zero => rfl
  | succ n ih =>
      have hpivot : Mat.entry M 0 0 = Mat.entry S 0 0 := h 0 0 le_rfl
      have hrow : Vec.tail (M.get 0) = Vec.tail (S.get 0) := by
        refine Vec.coords_injective (funext fun j => ?_)
        have hj := h 0 j.succ (Fin.zero_le _)
        simpa [Vec.coords, Vec.tail, Mat.toMatrix_apply, Vector.get_eq_getElem] using hj
      have hrest (row : Vec α n) := ih (h.complement row)
      simp only [ofMat, hpivot, hrow, hrest]

end

end CoEmbed
