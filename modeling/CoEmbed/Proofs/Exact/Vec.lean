import CoEmbed.Cholesky
import CoEmbed.Proofs.Exact.Scalar

/-!
# Vectors and Matrices in Exact Arithmetic

Over the reals a vector is its function of coordinates and a matrix is a matrix of algebra.
Each operation on vectors and matrices has one lemma that says what it is there; the
representation by arrays is not looked at again.

* `Vec.coords`, `Vec.ofCoords` — a vector as a function of its index, and back.
* `Mat.toMatrix` — a matrix as a function of its indices.
* `Vec.dot_eq` — the inner product is the dot product of the coordinates.
* `Mat.toMatrix_gram` — a Gram matrix is a sum of outer products.
-/

open Matrix

namespace CoEmbed

variable {m n : ℕ}

/-! ### Vectors -/

namespace Vec

/-- The **coordinates** of a vector, by index. -/
def coords {α : Type} (v : Vec α n) : Fin n → α := entry v

/-- The vector with given coordinates. -/
def ofCoords {α : Type} (x : Fin n → α) : Vec α n := Vector.ofFn x

@[simp] theorem coords_ofCoords {α : Type} (x : Fin n → α) : (ofCoords x).coords = x := by
  funext i
  simp [coords, ofCoords]

@[simp] theorem ofCoords_coords {α : Type} (v : Vec α n) : ofCoords v.coords = v := by
  ext i hi
  simp [coords, ofCoords]

/-- A vector is determined by its coordinates. -/
theorem coords_injective {α : Type} : Function.Injective (coords : Vec α n → Fin n → α) :=
  fun u v h => by rw [← ofCoords_coords u, h, ofCoords_coords]

@[simp] theorem coords_zero : (zero : Vec ℝ n).coords = 0 := by
  funext i
  exact getElem_zero i i.isLt

@[simp] theorem coords_add (u v : Vec ℝ n) : (add u v).coords = u.coords + v.coords := by
  funext i
  exact getElem_add u v i i.isLt

@[simp] theorem coords_addScaled (u : Vec ℝ n) (c : ℝ) (v : Vec ℝ n) :
    (addScaled u c v).coords = u.coords + c • v.coords := by
  funext i
  exact getElem_addScaled u c v i i.isLt

@[simp] theorem coords_divide (v : Vec ℝ n) (c : ℝ) : (divide v c).coords = c⁻¹ • v.coords := by
  funext i
  rw [Pi.smul_apply, smul_eq_mul, mul_comm, ← div_eq_mul_inv]
  exact getElem_divide v c i i.isLt

/-- The inner product is the **dot product** of the coordinates. -/
theorem dot_eq (u v : Vec ℝ n) : dot u v = u.coords ⬝ᵥ v.coords := Scalar.sum_real _

/-- The squared length is the dot product of the coordinates with themselves. -/
theorem normSq_eq (v : Vec ℝ n) : normSq v = v.coords ⬝ᵥ v.coords := dot_eq v v

@[simp] theorem finite_real (v : Vec ℝ n) : v.finite = true :=
  List.all_eq_true.2 fun x _ => Scalar.finite_real x

/-- The first coordinate and the rest of a vector make up the vector. -/
theorem coords_cons (a : ℝ) (v : Vec ℝ n) : (cons a v).coords = Fin.cons a v.coords := by
  funext i
  refine Fin.cases ?_ (fun i => ?_) i <;> simp [coords, cons]

@[simp] theorem tail_cons (a : ℝ) (v : Vec ℝ n) : tail (cons a v) = v := by
  ext i hi
  simp [tail, cons]

@[simp] theorem entry_cons_zero (a : ℝ) (v : Vec ℝ n) : entry (cons a v) 0 = a := by
  simp [entry, cons]

@[simp] theorem coords_tail (v : Vec ℝ (n + 1)) : v.tail.coords = fun i => v.coords i.succ := by
  funext i
  simp [coords, tail]

end Vec

/-! ### Matrices -/

namespace Mat

/-- A matrix as a **matrix of algebra**. -/
def toMatrix {α : Type} (A : Mat α m n) : Matrix (Fin m) (Fin n) α := Matrix.of (entry A)

theorem toMatrix_apply {α : Type} (A : Mat α m n) (i : Fin m) (j : Fin n) :
    A.toMatrix i j = entry A i j := rfl

theorem toMatrix_ofFn {α : Type} (f : Fin m → Fin n → α) : (ofFn f).toMatrix = Matrix.of f := by
  ext i j
  exact getElem_ofFn f i j i.isLt j.isLt

/-- A matrix is determined by its entries. -/
theorem toMatrix_injective {α : Type} :
    Function.Injective (toMatrix : Mat α m n → Matrix (Fin m) (Fin n) α) := by
  intro A B h
  ext i hi j hj
  exact congrFun (congrFun h ⟨i, hi⟩) ⟨j, hj⟩

@[simp] theorem toMatrix_zero : (zero : Mat ℝ m n).toMatrix = 0 := by
  ext i j
  exact getElem_zero i j i.isLt j.isLt

@[simp] theorem toMatrix_add (A B : Mat ℝ m n) :
    (add A B).toMatrix = A.toMatrix + B.toMatrix := by
  ext i j
  exact getElem_add A B i j i.isLt j.isLt

@[simp] theorem toMatrix_smul (c : ℝ) (A : Mat ℝ m n) : (smul c A).toMatrix = c • A.toMatrix := by
  ext i j
  exact getElem_smul c A i j i.isLt j.isLt

@[simp] theorem toMatrix_addRidge (A : Mat ℝ n n) (c : ℝ) :
    (addRidge A c).toMatrix = A.toMatrix + c • (1 : Matrix (Fin n) (Fin n) ℝ) := by
  ext i j
  rw [toMatrix_apply, entry_eq, Fin.getElem_fin, Fin.getElem_fin, getElem_addRidge,
    Matrix.add_apply, Matrix.smul_apply, Matrix.one_apply, smul_eq_mul, mul_ite, mul_one, mul_zero]
  by_cases h : i = j
  · rw [if_pos (congrArg Fin.val h), if_pos h]
    rfl
  · rw [if_neg (fun e => h (Fin.ext e)), if_neg h, add_zero]
    rfl

/-- A Gram matrix is the sum of the **outer products** of its vectors. -/
theorem toMatrix_gram (vs : List (Vec ℝ n)) :
    (gram vs).toMatrix = (vs.map fun v => vecMulVec v.coords v.coords).sum := by
  ext i j
  have hsum : ((vs.map fun v => vecMulVec v.coords v.coords).sum) i j
      = (vs.map fun v => v.coords i * v.coords j).sum := by
    induction vs with
    | nil => rfl
    | cons v vs ih =>
        rw [List.map_cons, List.sum_cons, List.map_cons, List.sum_cons, Matrix.add_apply,
          vecMulVec_apply, ih]
  have h : (gram vs)[i][j] = 0 + (vs.map fun v => v.coords i * v.coords j).sum :=
    (getElem_gram vs i j i.isLt j.isLt).trans (Scalar.foldl_add_eq_add_sum _ _ _)
  rw [toMatrix_apply, entry_eq, h, zero_add, hsum]

@[simp] theorem finite_real (A : Mat ℝ m n) : A.finite = true :=
  List.all_eq_true.2 fun v _ => Vec.finite_real v

end Mat

end CoEmbed
