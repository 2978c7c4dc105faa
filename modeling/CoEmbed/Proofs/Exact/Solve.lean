import CoEmbed.Proofs.Exact.Minors
import CoEmbed.Tensor

/-!
# Systems Given as Arrays

A system is handed over as arrays of any shape, and its right-hand side is a vector or a matrix
whose columns are solved for one by one. Over the reals what comes back is the one solution, or
the place where there is none to be had.

* `Tensor.matrix?_ofMat`, `Tensor.square?_ofMat` — a matrix is read back from its array.
* `Tensor.solve_ofVec` — with a vector on the right, solving arrays is solving a system.
* `Triangle.solveColumns`, `Tensor.solve_ofMat` — with a matrix on the right, column by column.
* `Mat.mirrored`, `Tensor.solve_congr` — only the upper triangle of the matrix matters.
* `Tensor.solve_correct` — what comes back, for every matrix and right-hand side.

## Symmetry convention

The factorisation never looks below the diagonal, so a matrix that is not symmetric stands for
the symmetric one with its upper triangle.
-/

open Matrix

namespace CoEmbed

variable {α : Type} {m n k : ℕ}

/-! ### Arrays of vectors and matrices -/

@[simp] theorem Vec.ofList?_toList (v : Vec α n) : ofList? n v.toList = some v := by
  rw [ofList?, dif_pos v.length_toList]
  exact congrArg some (Vector.toArray_inj.1 rfl)

namespace Tensor

@[simp] theorem vector?_ofVec (v : Vec α n) : (ofVec v).vector? = some ⟨n, v⟩ := by
  simp [vector?, ofVec]

@[simp] theorem vector?_ofMat (A : Mat α m n) : (ofMat A).vector? = none := rfl

/-- A row written before others is **cut off** first. -/
theorem cut_row {row : Vec α n} {xs : List α} {A : Mat α m n} (hA : cut m n xs = some A)
    {B : Mat α (m + 1) n} (hB : #[row] ++ A.toArray = B.toArray) :
    cut (m + 1) n (row.toList ++ xs) = some B := by
  have htake : (row.toList ++ xs).take n = row.toList := List.take_left' row.length_toList
  have hdrop : (row.toList ++ xs).drop n = xs := List.drop_left' row.length_toList
  change ((Vec.ofList? n ((row.toList ++ xs).take n)).bind fun r : Vec α n =>
    (cut m n ((row.toList ++ xs).drop n)).bind fun A : Mat α m n =>
      (some ⟨#[r] ++ A.toArray, _⟩ : Option (Mat α (m + 1) n))) = _
  rw [htake, hdrop, Vec.ofList?_toList, hA]
  exact congrArg some (Vector.toArray_inj.1 hB)

/-- Rows written one after the other are **cut apart** again. -/
theorem cut_flatMap (A : Mat α m n) : cut m n (A.toList.flatMap (·.toList)) = some A := by
  induction m with
  | zero => exact congrArg some (Vector.toArray_inj.1 (by simp))
  | succ m ih =>
      obtain ⟨⟨rows⟩, hrows⟩ := A
      cases rows with
      | nil => cases hrows
      | cons row rest => exact cut_row (ih ⟨⟨rest⟩, Nat.succ.inj hrows⟩) (by simp)

@[simp] theorem matrix?_ofMat (A : Mat α m n) : (ofMat A).matrix? = some ⟨m, n, A⟩ := by
  change (cut m n (A.toList.flatMap (·.toList))).map _ = _
  rw [cut_flatMap]
  rfl

/-- The square matrix of an array is the matrix **the array was made of**. -/
@[simp] theorem square?_ofMat (M : Mat α n n) : (ofMat M).square? = some ⟨n, M⟩ := by
  have hrows : (ofMat M).asRows = ofMat M := rfl
  have hshape : (ofMat M).shape ≠ [0] := by simp [ofMat]
  rw [square?, if_neg hshape, hrows, matrix?_ofMat]
  simp

section

variable [Scalar α]

theorem finite_ofVec (v : Vec α n) : (ofVec v).finite = v.finite := rfl

theorem finite_ofMat (A : Mat α m n) : (ofMat A).finite = A.finite := by
  rw [finite, ofMat, List.all_flatMap]
  rfl

/-- With a **vector** on the right, solving arrays is solving a system. -/
theorem solve_ofVec (M : Mat α n n) (b : Vec α n) :
    solve (ofMat M) (ofVec b) = (solveSystem M b).map ofVec := by
  rw [solve, solveSystem, finite_ofMat, finite_ofVec, square?_ofMat, vector?_ofVec]
  cases Mat.finite M && Vec.finite b with
  | false => rfl
  | true =>
      cases hR : Triangle.ofMat M with
      | error k =>
          simp only [hR]
          rfl
      | ok R => simp [hR, pure, Except.pure, Except.map]

end

end Tensor

/-! ### Solving -/

/-- Solves for **every column** of a matrix. -/
def Triangle.solveColumns [Scalar α] (R : Triangle α n) (B : Mat α n k) : Mat α n k :=
  Mat.ofFn fun i j => (R.solve (B.column j)).entry i

/-- The columns **solve the system** whose matrix they are given the factor of. -/
theorem Triangle.mul_solveColumns {M : Mat ℝ n n} (hM : M.toMatrix.IsSymm) {R : Triangle ℝ n}
    (hR : ofMat M = .ok R) (B : Mat ℝ n k) :
    M.toMatrix * (R.solveColumns B).toMatrix = B.toMatrix := by
  ext i j
  have hcolumn (l : Fin n) : (R.solveColumns B).toMatrix l j = (R.solve (B.column j)).coords l :=
    congrFun (congrFun (Mat.toMatrix_ofFn _) l) j
  have hb : (B.column j).coords i = B.toMatrix i j := by
    simp [Vec.coords, Mat.column, Mat.toMatrix_apply]
  rw [← hb, ← mulVec_solve hM hR (B.column j), Matrix.mul_apply, mulVec, dotProduct]
  exact Finset.sum_congr rfl fun l _ => by rw [hcolumn]

namespace Tensor

/-- Over the reals nothing stands in the way of a factorisation but **its own pivots**. -/
theorem solve_of_error {M : Mat ℝ n n} {k : ℕ} (h : Triangle.ofMat M = .error k)
    (rhs : Tensor ℝ) : solve (ofMat M) rhs = .error (.system (.notPositiveDefinite k)) := by
  have hfinite (t : Tensor ℝ) : t.finite = true :=
    List.all_eq_true.2 fun x _ => Scalar.finite_real x
  rw [solve, hfinite, hfinite, square?_ofMat]
  simp [h, throw, throwThe, MonadExceptOf.throw]

/-- With a **matrix** on the right every column is solved for. -/
theorem solve_ofMat {M : Mat ℝ n n} {R : Triangle ℝ n} (h : Triangle.ofMat M = .ok R)
    (B : Mat ℝ n k) : solve (ofMat M) (ofMat B) = .ok (ofMat (R.solveColumns B)) := by
  rw [solve, finite_ofMat, finite_ofMat, Mat.finite_real, Mat.finite_real, square?_ofMat,
    vector?_ofMat, matrix?_ofMat]
  simp [h, pure, Except.pure, Triangle.solveColumns]

/-- Matrices with one upper triangle give **one outcome**, whatever the right-hand side. -/
theorem solve_congr {M S : Mat ℝ n n} (h : M.UpperEq S) (rhs : Tensor ℝ) :
    solve (ofMat M) rhs = solve (ofMat S) rhs := by
  have hfactor : Triangle.ofMat M = Triangle.ofMat S := Triangle.ofMat_congr h
  rw [solve, solve, finite_ofMat, finite_ofMat, Mat.finite_real, Mat.finite_real, square?_ofMat,
    square?_ofMat]
  simp only [hfactor]

/-- A positive definite system with a vector on the right has **one solution**, and it is
returned. -/
theorem exists_solve_ofVec {M : Mat ℝ n n} (hM : M.toMatrix.IsSymm) (hpd : M.toMatrix.PosDef)
    (b : Vec ℝ n) : ∃ x : Vec ℝ n, solve (ofMat M) (ofVec b) = .ok (ofVec x) ∧
      ∀ y, M.toMatrix *ᵥ y = b.coords ↔ y = x.coords := by
  obtain ⟨R, hR⟩ := (Triangle.exists_ofMat_iff hM).2 hpd
  have hx : M.toMatrix *ᵥ (R.solve b).coords = b.coords := Triangle.mulVec_solve hM hR b
  refine ⟨R.solve b, ?_, fun y => ?_⟩
  · rw [solve_ofVec, (solveSystem_eq_ok_iff hM).2 ⟨hpd, hx⟩]
    rfl
  · rw [← hx]
    exact (Matrix.mulVec_injective_of_isUnit hpd.isUnit).eq_iff

/-- A positive definite system with a matrix on the right has **one solution**, and it is
returned. -/
theorem exists_solve_ofMat {M : Mat ℝ n n} (hM : M.toMatrix.IsSymm) (hpd : M.toMatrix.PosDef)
    (B : Mat ℝ n k) : ∃ X : Mat ℝ n k, solve (ofMat M) (ofMat B) = .ok (ofMat X) ∧
      ∀ Y, M.toMatrix * Y = B.toMatrix ↔ Y = X.toMatrix := by
  obtain ⟨R, hR⟩ := (Triangle.exists_ofMat_iff hM).2 hpd
  have hX : M.toMatrix * (R.solveColumns B).toMatrix = B.toMatrix := R.mul_solveColumns hM hR B
  have hdet : IsUnit M.toMatrix.det := (Matrix.isUnit_iff_isUnit_det _).1 hpd.isUnit
  refine ⟨R.solveColumns B, solve_ofMat hR B, fun Y => ⟨fun hY => ?_, fun hY => hY ▸ hX⟩⟩
  calc Y = M.toMatrix⁻¹ * (M.toMatrix * Y) := (nonsing_inv_mul_cancel_left _ Y hdet).symm
    _ = M.toMatrix⁻¹ * (M.toMatrix * (R.solveColumns B).toMatrix) := by rw [hY, hX]
    _ = (R.solveColumns B).toMatrix := nonsing_inv_mul_cancel_left _ _ hdet

end Tensor

namespace Mat

/-- The matrix with the upper triangle **mirrored** in the diagonal. -/
def mirrored (M : Mat α n n) : Mat α n n :=
  ofFn fun i j => if i ≤ j then M.entry i j else M.entry j i

theorem isSymm_mirrored (M : Mat α n n) : M.mirrored.toMatrix.IsSymm := by
  refine Matrix.IsSymm.ext fun i j => ?_
  rw [mirrored, toMatrix_ofFn, Matrix.of_apply, Matrix.of_apply]
  obtain h | rfl | h := lt_trichotomy i j
  · rw [if_neg h.not_ge, if_pos h.le]
  · rfl
  · rw [if_pos h.le, if_neg h.not_ge]

theorem upperEq_mirrored (M : Mat α n n) : M.UpperEq M.mirrored := by
  intro i j hij
  rw [mirrored, toMatrix_ofFn, Matrix.of_apply, if_pos hij]
  rfl

/-- A positive definite matrix of order two. -/
def definite : Mat ℝ 2 2 := ofFn ![![1, 1], ![1, (2 : ℕ)]]

/-- A symmetric matrix of order two that is **not positive definite**: its determinant is
negative. -/
def indefinite : Mat ℝ 2 2 := ofFn ![![1, 1], ![1, 0]]

theorem toMatrix_definite : definite.toMatrix = !![1, 1; 1, 2] := by
  rw [definite, toMatrix_ofFn, Nat.cast_ofNat]

theorem toMatrix_indefinite : indefinite.toMatrix = !![1, 1; 1, 0] := toMatrix_ofFn _

theorem isSymm_definite : definite.toMatrix.IsSymm := by
  rw [toMatrix_definite]
  exact Matrix.IsSymm.ext fun i j => by fin_cases i <;> fin_cases j <;> rfl

theorem isSymm_indefinite : indefinite.toMatrix.IsSymm := by
  rw [toMatrix_indefinite]
  exact Matrix.IsSymm.ext fun i j => by fin_cases i <;> fin_cases j <;> rfl

theorem posDef_definite : definite.toMatrix.PosDef := by
  refine (posDef_iff_leadingMinor_pos isSymm_definite).2 fun k hk => ?_
  rw [toMatrix_definite]
  interval_cases k
  · simp
  · simp [leadingMinor_one]
  · norm_num [leadingMinor, det_fin_two]

theorem firstNonpositive_indefinite : FirstNonpositive indefinite.toMatrix 2 := by
  rw [toMatrix_indefinite]
  refine ⟨le_rfl, by norm_num [leadingMinor, det_fin_two], fun j hj => ?_⟩
  interval_cases j
  · simp
  · simp [leadingMinor_one]

end Mat

namespace Tensor

/-- **Solving is correct and total.** A symmetric system is solved exactly if its matrix is
positive definite, for every vector and every matrix on the right, and what comes back is the
only solution; otherwise the fault names the order of the first leading minor that is not
positive. A matrix that is not symmetric gives the outcome of the symmetric matrix with its
upper triangle. -/
theorem solve_correct (M : Mat ℝ n n) :
    (M.toMatrix.IsSymm →
      (M.toMatrix.PosDef →
        (∀ b : Vec ℝ n, ∃ x : Vec ℝ n, solve (ofMat M) (ofVec b) = .ok (ofVec x) ∧
          ∀ y, M.toMatrix *ᵥ y = b.coords ↔ y = x.coords) ∧
        ∀ (k : ℕ) (B : Mat ℝ n k), ∃ X : Mat ℝ n k, solve (ofMat M) (ofMat B) = .ok (ofMat X) ∧
          ∀ Y, M.toMatrix * Y = B.toMatrix ↔ Y = X.toMatrix) ∧
      (¬ M.toMatrix.PosDef → ∃ k, FirstNonpositive M.toMatrix k ∧
        ∀ rhs, solve (ofMat M) rhs = .error (.system (.notPositiveDefinite k)))) ∧
    M.mirrored.toMatrix.IsSymm ∧ M.UpperEq M.mirrored ∧
      ∀ rhs, solve (ofMat M) rhs = solve (ofMat M.mirrored) rhs := by
  refine ⟨fun hM => ⟨fun hpd => ?_, fun hpd => ?_⟩, M.isSymm_mirrored, M.upperEq_mirrored,
    solve_congr M.upperEq_mirrored⟩
  · exact ⟨exists_solve_ofVec hM hpd, fun _ => exists_solve_ofMat hM hpd⟩
  · cases hR : Triangle.ofMat M with
    | ok R => exact absurd ((Triangle.exists_ofMat_iff hM).1 ⟨R, hR⟩) hpd
    | error k => exact ⟨k, (Triangle.ofMat_eq_error_iff hM).1 hR, solve_of_error hR⟩

/-- A system of order two **with its solution**, and one without a pivot in its last column, which
is refused whatever stands on the right. -/
theorem solve_correct_two :
    Mat.definite.toMatrix.IsSymm ∧ Mat.definite.toMatrix.PosDef ∧
    Mat.indefinite.toMatrix.IsSymm ∧ ¬ Mat.indefinite.toMatrix.PosDef ∧
    solve (ofMat Mat.definite) (ofVec (Vec.ofCoords ![3, 5]))
      = .ok (ofVec (Vec.ofCoords ![1, 2])) ∧
    ∀ rhs, solve (ofMat Mat.indefinite) rhs = .error (.system (.notPositiveDefinite 2)) := by
  have hnot := Mat.firstNonpositive_indefinite.not_posDef
  refine ⟨Mat.isSymm_definite, Mat.posDef_definite, Mat.isSymm_indefinite, hnot, ?_, ?_⟩
  · have hvectors := (((solve_correct Mat.definite).1 Mat.isSymm_definite).1 Mat.posDef_definite).1
    obtain ⟨x, hx, hone⟩ := hvectors (Vec.ofCoords ![3, 5])
    have hy : Mat.definite.toMatrix *ᵥ ![1, 2] = (Vec.ofCoords ![3, 5]).coords := by
      rw [Mat.toMatrix_definite, Vec.coords_ofCoords]
      funext i
      fin_cases i <;> norm_num [mulVec, dotProduct]
    rw [hx, (hone _).1 hy, Vec.ofCoords_coords]
  · obtain ⟨k, hk, herror⟩ := ((solve_correct Mat.indefinite).1 Mat.isSymm_indefinite).2 hnot
    rwa [hk.unique Mat.firstNonpositive_indefinite] at herror

end Tensor

end CoEmbed
