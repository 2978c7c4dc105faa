import CoEmbed.Gram
import CoEmbed.Proofs.Exact.Vec

/-!
# Cholesky Factorisation in Exact Arithmetic

Over the reals the factorisation of a symmetric matrix succeeds exactly if the matrix is
positive definite, and the two substitutions then solve the system.

* `Eliminates` — one step of the factorisation, as equations between matrices.
* `Eliminates.mulVec_cons` — the matrix applied to a vector, through the step.
* `Eliminates.posDef_iff` — the step keeps positive definiteness, in both directions.
* `Triangle.exists_ofMat_iff`, `Triangle.mulVec_solve` — when there is a factor, and what it
  solves.
* `solveSystem_eq_ok_iff` — both, as one statement about solutions.
-/

open Matrix

namespace CoEmbed

variable {n : ℕ}

/-- A real matrix that is symmetric is Hermitian. -/
theorem isHermitian_of_isSymm {A : Matrix (Fin n) (Fin n) ℝ} (h : A.IsSymm) : A.IsHermitian :=
  (conjTranspose_eq_transpose_of_trivial A).trans h

/-! ### One elimination step -/

/-- The first row of `A` is **eliminated**: `r` is the root of the pivot, `row` the rest of the
first row divided by it, and `C` what is left of the matrix. -/
structure Eliminates (A : Matrix (Fin (n + 1)) (Fin (n + 1)) ℝ) (r : ℝ) (row : Fin n → ℝ)
    (C : Matrix (Fin n) (Fin n) ℝ) : Prop where
  symm : A.IsSymm
  pos : 0 < r
  pivot : A 0 0 = r * r
  first : ∀ j, A 0 j.succ = r * row j
  rest : ∀ i j, A i.succ j.succ = C i j + row i * row j

namespace Eliminates

variable {A : Matrix (Fin (n + 1)) (Fin (n + 1)) ℝ} {r : ℝ} {row : Fin n → ℝ}
  {C : Matrix (Fin n) (Fin n) ℝ}

/-- What is left of a symmetric matrix is symmetric. -/
theorem isSymm (h : Eliminates A r row C) : C.IsSymm := by
  refine Matrix.IsSymm.ext fun i j => ?_
  have hA := h.symm.apply i.succ j.succ
  rw [h.rest, h.rest, mul_comm (row j)] at hA
  exact add_right_cancel hA

/-- The matrix applied to a vector, **through the step**: the first coordinate of the result
is `r * s` and the others are `s • row + C y`, where `s` is what the first row of the factor
makes of the vector. -/
theorem mulVec_cons (h : Eliminates A r row C) (a : ℝ) (y : Fin n → ℝ) :
    A *ᵥ Fin.cons a y
      = Fin.cons (r * (r * a + row ⬝ᵥ y)) ((r * a + row ⬝ᵥ y) • row + C *ᵥ y) := by
  funext i
  refine Fin.cases ?_ (fun i => ?_) i
  · have hrow : ∑ j : Fin n, A 0 j.succ * y j = r * (row ⬝ᵥ y) := by
      rw [dotProduct, Finset.mul_sum]
      exact Finset.sum_congr rfl fun j _ => by rw [h.first, mul_assoc]
    rw [mulVec, dotProduct, Fin.sum_univ_succ]
    simp only [Fin.cons_zero, Fin.cons_succ]
    rw [hrow, h.pivot]
    ring
  · have hcol : A i.succ 0 = r * row i := by rw [h.symm.apply, h.first]
    have hrest : ∑ j : Fin n, A i.succ j.succ * y j = (C *ᵥ y) i + row i * (row ⬝ᵥ y) := by
      rw [mulVec, dotProduct, dotProduct, Finset.mul_sum, ← Finset.sum_add_distrib]
      exact Finset.sum_congr rfl fun j _ => by rw [h.rest]; ring
    rw [mulVec, dotProduct, Fin.sum_univ_succ]
    simp only [Fin.cons_zero, Fin.cons_succ, Pi.add_apply, Pi.smul_apply, smul_eq_mul]
    rw [hcol, hrest]
    ring

/-- The quadratic form **completes the square**: what the factor's first row makes of a vector,
squared, and the form of what is left. -/
theorem form_cons (h : Eliminates A r row C) (a : ℝ) (y : Fin n → ℝ) :
    (Fin.cons a y : Fin (n + 1) → ℝ) ⬝ᵥ A *ᵥ Fin.cons a y
      = (r * a + row ⬝ᵥ y) ^ 2 + y ⬝ᵥ C *ᵥ y := by
  rw [h.mulVec_cons, dotProduct, Fin.sum_univ_succ]
  simp only [Fin.cons_zero, Fin.cons_succ]
  have hy : ∑ i, y i * ((r * a + row ⬝ᵥ y) • row + C *ᵥ y) i
      = (r * a + row ⬝ᵥ y) * (row ⬝ᵥ y) + y ⬝ᵥ C *ᵥ y := by
    change y ⬝ᵥ ((r * a + row ⬝ᵥ y) • row + C *ᵥ y) = _
    rw [dotProduct_add, dotProduct_smul, smul_eq_mul, dotProduct_comm y row]
  rw [hy]
  ring

/-- A symmetric matrix is positive definite **exactly if** what is left of it is. -/
theorem posDef_iff (h : Eliminates A r row C) : A.PosDef ↔ C.PosDef := by
  constructor
  · intro hA
    refine .of_dotProduct_mulVec_pos (isHermitian_of_isSymm h.isSymm) fun y hy => ?_
    -- the first coordinate is chosen so that the square vanishes
    have hs : r * (-(row ⬝ᵥ y) / r) + row ⬝ᵥ y = 0 := by
      rw [mul_div_cancel₀ _ h.pos.ne', neg_add_cancel]
    have hx : (Fin.cons (-(row ⬝ᵥ y) / r) y : Fin (n + 1) → ℝ) ≠ 0 := fun e =>
      hy (funext fun i => by simpa using congrFun e i.succ)
    have hpos := hA.dotProduct_mulVec_pos hx
    rw [star_trivial, h.form_cons, hs] at hpos
    simpa using hpos
  · intro hC
    refine .of_dotProduct_mulVec_pos (isHermitian_of_isSymm h.symm) fun x hx => ?_
    obtain ⟨a, y, rfl⟩ : ∃ a y, x = Fin.cons a y := ⟨x 0, Fin.tail x, (Fin.cons_self_tail x).symm⟩
    rw [star_trivial, h.form_cons]
    by_cases hy : y = 0
    · have ha : a ≠ 0 := by
        rintro rfl
        refine hx (funext fun i => ?_)
        refine Fin.cases ?_ (fun i => ?_) i <;> simp [hy]
      have : r * a ≠ 0 := mul_ne_zero h.pos.ne' ha
      simp only [hy, dotProduct_zero, add_zero, zero_dotProduct]
      positivity
    · have hpos := hC.dotProduct_mulVec_pos hy
      rw [star_trivial] at hpos
      positivity

end Eliminates

/-! ### The factor and the substitutions -/

namespace Triangle

/-- The rest of the first row of a matrix, **divided by the root of its pivot**. -/
noncomputable def firstRow (M : Mat ℝ (n + 1) (n + 1)) : Vec ℝ n :=
  let first : Fin (n + 1) := ⟨0, n.succ_pos⟩
  Vec.divide (Vec.tail (M.get first)) (Scalar.sqrt (Mat.entry M first first))

/-- The factorisation of a symmetric matrix with a positive pivot is an elimination step. -/
theorem eliminates {M : Mat ℝ (n + 1) (n + 1)} (hM : M.toMatrix.IsSymm)
    (hp : 0 < M.toMatrix 0 0) :
    Eliminates M.toMatrix (Real.sqrt (M.toMatrix 0 0)) (firstRow M).coords
      (complement M (firstRow M)).toMatrix where
  symm := hM
  pos := Real.sqrt_pos.2 hp
  pivot := (Real.mul_self_sqrt hp.le).symm
  first j := by
    have hrow : (firstRow M).coords j = M.toMatrix 0 j.succ / Real.sqrt (M.toMatrix 0 0) := by
      simp only [firstRow, Vec.coords, Vec.entry_eq, Fin.getElem_fin, Vec.getElem_divide]
      simp only [Vec.tail, Vector.getElem_ofFn]
      rfl
    rw [hrow, mul_div_cancel₀ _ (Real.sqrt_pos.2 hp).ne']
  rest i j := by
    have hC : (complement M (firstRow M)).toMatrix i j
        = M.toMatrix i.succ j.succ - (firstRow M).coords i * (firstRow M).coords j :=
      Mat.getElem_ofFn _ i j i.isLt j.isLt
    rw [hC, sub_add_cancel]

/-- Where the pivot is positive the factor is built **from that of what is left**. -/
theorem ofMat_of_pos {M : Mat ℝ (n + 1) (n + 1)} (hp : 0 < M.toMatrix 0 0) :
    ofMat M = match ofMat (complement M (firstRow M)) with
      | .ok rest => .ok (.cons (Real.sqrt (M.toMatrix 0 0)) (firstRow M) rest)
      | .error k => .error (k + 1) := by
  have hlt : Scalar.lt 0 (Mat.entry M 0 0) = true := Scalar.lt_real.2 hp
  have hrow : Vec.divide (Vec.tail (M.get 0)) (Scalar.sqrt (Mat.entry M 0 0)) = firstRow M := rfl
  rw [ofMat, if_pos hlt]
  dsimp only
  rw [hrow]
  cases ofMat (complement M (firstRow M)) with
  | ok rest => rfl
  | error k => rfl

/-- Where the pivot is not positive there is no factor. -/
theorem ofMat_of_nonpos {M : Mat ℝ (n + 1) (n + 1)} (hp : ¬ 0 < M.toMatrix 0 0) :
    ofMat M = .error 1 :=
  if_neg fun h => hp (Scalar.lt_real.1 h)

/-- **A symmetric matrix has a factor exactly if it is positive definite.** -/
theorem exists_ofMat_iff {n : ℕ} {M : Mat ℝ n n} (hM : M.toMatrix.IsSymm) :
    (∃ R, ofMat M = .ok R) ↔ M.toMatrix.PosDef := by
  induction n with
  | zero =>
      refine iff_of_true ⟨.nil, rfl⟩ (.of_dotProduct_mulVec_pos (isHermitian_of_isSymm hM) ?_)
      exact fun x hx => absurd (Subsingleton.elim x 0) hx
  | succ n ih =>
      by_cases hp : 0 < M.toMatrix 0 0
      · have step := eliminates hM hp
        rw [step.posDef_iff, ← ih step.isSymm, ofMat_of_pos hp]
        cases ofMat (complement M (firstRow M)) with
        | ok rest => simp
        | error k => simp
      · refine iff_of_false ?_ fun hpd => hp hpd.diag_pos
        rintro ⟨R, hR⟩
        rw [ofMat_of_nonpos hp] at hR
        cases hR

/-- Both substitutions through the first row of a factor: the first coordinate of the solution
is found last, from the coordinates after it. -/
theorem solve_cons (r : ℝ) (row : Vec ℝ n) (rest : Triangle ℝ n) (b : Vec ℝ (n + 1)) :
    (cons r row rest).solve b
      = Vec.cons
          ((b.coords 0 / r
            - Vec.dot row (rest.solve (Vec.addScaled (Vec.tail b) (-(b.coords 0 / r)) row))) / r)
          (rest.solve (Vec.addScaled (Vec.tail b) (-(b.coords 0 / r)) row)) := by
  simp only [solve, forward, backward, Vec.tail_cons, Vec.entry_cons_zero]
  rfl

/-- **The substitutions solve the system** whose matrix they are given the factor of. -/
theorem mulVec_solve {n : ℕ} {M : Mat ℝ n n} (hM : M.toMatrix.IsSymm) {R : Triangle ℝ n}
    (hR : ofMat M = .ok R) (b : Vec ℝ n) : M.toMatrix *ᵥ (R.solve b).coords = b.coords := by
  induction n with
  | zero => exact funext fun i => i.elim0
  | succ n ih =>
      by_cases hp : 0 < M.toMatrix 0 0
      · have step := eliminates hM hp
        rw [ofMat_of_pos hp] at hR
        cases hrest : ofMat (complement M (firstRow M)) with
        | error k =>
            rw [hrest] at hR
            cases hR
        | ok rest =>
            rw [hrest] at hR
            obtain rfl := Except.ok.inj hR
            have hx := ih step.isSymm hrest (Vec.addScaled (Vec.tail b)
              (-(b.coords 0 / Real.sqrt (M.toMatrix 0 0))) (firstRow M))
            rw [solve_cons, Vec.coords_cons, step.mulVec_cons, hx, Vec.dot_eq,
              mul_div_cancel₀ _ step.pos.ne', sub_add_cancel, mul_div_cancel₀ _ step.pos.ne']
            funext i
            refine Fin.cases (by simp) (fun i => ?_) i
            simp
      · rw [ofMat_of_nonpos hp] at hR
        cases hR

end Triangle

/-- In exact arithmetic a symmetric system has a solution **exactly if** its matrix is positive
definite, and what is returned is the one solution. -/
theorem solveSystem_eq_ok_iff {M : Mat ℝ n n} (hM : M.toMatrix.IsSymm) {b x : Vec ℝ n} :
    solveSystem M b = .ok x ↔ M.toMatrix.PosDef ∧ M.toMatrix *ᵥ x.coords = b.coords := by
  have hfin : (!(Mat.finite M && Vec.finite b)) = false := by simp
  rw [solveSystem, hfin, if_neg Bool.false_ne_true]
  constructor
  · intro h
    cases hR : Triangle.ofMat M with
    | error k =>
        rw [hR] at h
        cases h
    | ok R =>
        rw [hR] at h
        obtain rfl := Except.ok.inj h
        exact ⟨(Triangle.exists_ofMat_iff hM).1 ⟨R, hR⟩, Triangle.mulVec_solve hM hR b⟩
  · rintro ⟨hpd, hx⟩
    obtain ⟨R, hR⟩ := (Triangle.exists_ofMat_iff hM).2 hpd
    have hsame : M.toMatrix *ᵥ (R.solve b).coords = M.toMatrix *ᵥ x.coords :=
      (Triangle.mulVec_solve hM hR b).trans hx.symm
    have hinj := Matrix.mulVec_injective_of_isUnit hpd.isUnit
    rw [hR]
    exact congrArg Except.ok (Vec.coords_injective (hinj hsame))

end CoEmbed
