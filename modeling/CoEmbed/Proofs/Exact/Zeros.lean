import CoEmbed.Gram
import CoEmbed.Proofs.Exact.Scalar

/-!
# Zeros

An arithmetic may have two zeros, and to add one of them to the other may leave the first of them
or the second. Which of the two a number is shows in what is divided by it, and in zeros that are
computed from it, but in nothing that is added to a number which no zero changes.

* `Scalar.Alike` — numbers that are the same, or both zeros.
* `Scalar.Solid` — numbers that no zero changes.
* `Scalar.FaintZeros` — arithmetics in which zeros that differ are computed to no more than zeros
  that differ.
* `Triangle.ofMat_alike` — matrices that are alike have triangles that are alike.
* `solveSystem_alike` — systems that are alike have one solution, if their right sides are solid.

## Pivot convention

A factorisation divides by the roots of pivots, and by nothing else. A pivot is above zero, and so
it is solid.
-/

namespace CoEmbed

namespace Scalar

variable {α : Type} [Scalar α]

/-- Numbers that are **the same, or both zeros**: adding zero makes them the same. -/
def Alike (a b : α) : Prop := a + 0 = b + 0

/-- A number that **no zero changes**. -/
def Solid (a : α) : Prop := a + 0 = a

theorem Alike.refl (a : α) : Alike a a := rfl

theorem Alike.symm {a b : α} (h : Alike a b) : Alike b a := Eq.symm h

/-- Solid numbers that are alike are **the same**. -/
theorem Alike.eq {a b : α} (h : Alike a b) (ha : Solid a) (hb : Solid b) : a = b :=
  ha.symm.trans (Eq.trans h hb)

/-- An arithmetic whose **zeros are hardly told apart**: from numbers that are alike numbers are
computed that are alike, and what is added to a solid number is just the same. -/
class FaintZeros (α : Type) [Scalar α] : Prop where
  solid_zero : Solid (0 : α)
  solid_add_zero (a : α) : Solid (a + 0)
  solid_add {a : α} (b : α) : Solid a → Solid (a + b)
  solid_of_pos {a : α} : lt 0 a = true → Solid a
  add_eq {a b c : α} : Solid a → Alike b c → a + b = a + c
  add (a : α) {b c : α} : Alike b c → Alike (a + b) (a + c)
  sub {a b c d : α} : Alike a b → Alike c d → Alike (a - c) (b - d)
  mul {a b c d : α} : Alike a b → Alike c d → Alike (a * c) (b * d)
  div {a b : α} (c : α) : Alike a b → Alike (a / c) (b / c)
  lt_eq {a b : α} : Alike a b → lt 0 a = lt 0 b
  finite_eq {a b : α} : Alike a b → finite a = finite b

/-- The reals have **one zero**. -/
instance : FaintZeros ℝ where
  solid_zero := add_zero 0
  solid_add_zero a := add_zero _
  solid_add _ _ := add_zero _
  solid_of_pos _ := add_zero _
  add_eq _ h := congrArg _ ((add_zero _).symm.trans (h.trans (add_zero _)))
  add a _ _ h := congrArg (fun x => a + x + 0) ((add_zero _).symm.trans (h.trans (add_zero _)))
  sub h h' := by
    simp only [Alike, add_zero] at h h' ⊢
    rw [h, h']
  mul h h' := by
    simp only [Alike, add_zero] at h h' ⊢
    rw [h, h']
  div c h := by
    simp only [Alike, add_zero] at h ⊢
    rw [h]
  lt_eq h := by
    simp only [Alike, add_zero] at h
    rw [h]
  finite_eq _ := rfl

/-! ### Sums -/

variable [FaintZeros α]

/-- Sums of numbers that are alike are **the same**. -/
theorem sum_alike {n : ℕ} {f g : Fin n → α} (h : ∀ i, Alike (f i) (g i)) : sum f = sum g := by
  have key : ∀ (xs : List (Fin n)) {s : α}, Solid s →
      xs.foldl (fun s i => s + f i) s = xs.foldl (fun s i => s + g i) s := by
    intro xs
    induction xs with
    | nil => exact fun _ => rfl
    | cons i xs ih =>
        intro s hs
        rw [List.foldl_cons, List.foldl_cons, FaintZeros.add_eq hs (h i)]
        exact ih (FaintZeros.solid_add _ hs)
  rw [sum, sum, Fin.foldl_eq_foldl_finRange, Fin.foldl_eq_foldl_finRange]
  exact key _ FaintZeros.solid_zero

end Scalar

open Scalar (Alike Solid FaintZeros)

variable {α : Type} [Scalar α] {m n : ℕ}

/-! ### Vectors and matrices -/

/-- Vectors whose **entries are alike**. -/
def Vec.Alike (u v : Vec α n) : Prop := ∀ i (hi : i < n), Scalar.Alike u[i] v[i]

/-- A vector whose **entries are solid**. -/
def Vec.Solid (v : Vec α n) : Prop := ∀ i (hi : i < n), Scalar.Solid v[i]

/-- Matrices whose **entries are alike**. -/
def Mat.Alike (A B : Mat α m n) : Prop :=
  ∀ i (hi : i < m) j (hj : j < n), Scalar.Alike A[i][j] B[i][j]

section

variable [FaintZeros α]

/-- What is added to a solid vector **leaves it solid**. -/
theorem Vec.Solid.addScaled {u : Vec α n} (hu : u.Solid) (c : α) (v : Vec α n) :
    (Vec.addScaled u c v).Solid := by
  intro i hi
  rw [Vec.getElem_addScaled]
  exact FaintZeros.solid_add _ (hu i hi)

theorem Vec.solid_zero : (Vec.zero : Vec α n).Solid := by
  intro i hi
  rw [Vec.getElem_zero]
  exact FaintZeros.solid_zero

/-- Multiples of vectors that are alike are **added as one** to a solid vector. -/
theorem Vec.Solid.addScaled_eq {u v w : Vec α n} (hu : u.Solid) (c : α) (h : v.Alike w) :
    Vec.addScaled u c v = Vec.addScaled u c w := by
  ext i hi
  rw [Vec.getElem_addScaled, Vec.getElem_addScaled]
  exact FaintZeros.add_eq (hu i hi) (FaintZeros.mul (Alike.refl c) (h i hi))

theorem Vec.Alike.dot_eq {u v : Vec α n} (h : u.Alike v) (w : Vec α n) :
    Vec.dot u w = Vec.dot v w :=
  Scalar.sum_alike fun i => FaintZeros.mul (h i i.isLt) (Alike.refl _)

theorem Mat.Alike.finite_eq {A B : Mat α m n} (h : Mat.Alike A B) :
    Mat.finite A = Mat.finite B := by
  have hentry : ∀ C : Mat α m n, Mat.finite C = true ↔
      ∀ i (hi : i < m) j (hj : j < n), Scalar.finite C[i][j] = true := by
    intro C
    simp [Mat.finite, Vec.finite]
  rw [Bool.eq_iff_iff, hentry, hentry]
  constructor
  · exact fun hA i hi j hj => (FaintZeros.finite_eq (h i hi j hj)).symm.trans (hA i hi j hj)
  · exact fun hB i hi j hj => (FaintZeros.finite_eq (h i hi j hj)).trans (hB i hi j hj)

/-! ### Triangles -/

/-- Triangles with **the same pivots**, whose other entries are alike. -/
inductive Triangle.Alike : {n : ℕ} → Triangle α n → Triangle α n → Prop
  | nil : Alike .nil .nil
  | cons {n : ℕ} (pivot : α) {u v : Vec α n} {R S : Triangle α n} (hrow : u.Alike v)
      (hrest : Alike R S) : Alike (.cons pivot u R) (.cons pivot v S)

/-- Solid vectors are **substituted as one** in triangles that are alike. -/
theorem Triangle.Alike.forward_eq {R S : Triangle α n} (h : R.Alike S) {b : Vec α n}
    (hb : b.Solid) : R.forward b = S.forward b := by
  induction h with
  | nil => rfl
  | cons pivot hrow hrest ih =>
      have htail : (Vec.tail b).Solid := by
        intro i hi
        have hentry := hb (i + 1) (Nat.succ_lt_succ hi)
        simpa [Vec.tail] using hentry
      rw [forward, forward, htail.addScaled_eq _ hrow, ih (htail.addScaled _ _)]

theorem Triangle.Alike.backward_eq {R S : Triangle α n} (h : R.Alike S) (y : Vec α n) :
    R.backward y = S.backward y := by
  induction h with
  | nil => rfl
  | cons pivot hrow hrest ih => rw [backward, backward, ih, hrow.dot_eq]

/-- What is left of matrices that are alike **is alike**. -/
theorem Triangle.complement_alike {A B : Mat α (n + 1) (n + 1)} (h : Mat.Alike A B)
    {u v : Vec α n} (hrow : u.Alike v) : Mat.Alike (complement A u) (complement B v) := by
  intro i hi j hj
  simp only [complement, Mat.getElem_ofFn]
  exact FaintZeros.sub (h _ _ _ _) (FaintZeros.mul (hrow i hi) (hrow j hj))

/-- Matrices that are alike have **triangles that are alike**, or the same pivot that is not above
zero. -/
theorem Triangle.ofMat_alike {A B : Mat α n n} (h : Mat.Alike A B) :
    (∃ R S, ofMat A = .ok R ∧ ofMat B = .ok S ∧ R.Alike S) ∨
      ∃ k, ofMat A = .error k ∧ ofMat B = .error k := by
  induction n with
  | zero => exact .inl ⟨.nil, .nil, rfl, rfl, .nil⟩
  | succ n ih =>
      have hpivot : Scalar.Alike (Mat.entry A 0 0) (Mat.entry B 0 0) := h 0 _ 0 _
      rw [ofMat, ofMat, ← FaintZeros.lt_eq hpivot]
      by_cases hpos : Scalar.lt 0 (Mat.entry A 0 0) = true
      · have heq : Mat.entry A 0 0 = Mat.entry B 0 0 :=
          hpivot.eq (FaintZeros.solid_of_pos hpos)
            (FaintZeros.solid_of_pos ((FaintZeros.lt_eq hpivot).symm.trans hpos))
        have hrow : (Vec.divide (Vec.tail (A.get 0)) (Scalar.sqrt (Mat.entry A 0 0))).Alike
            (Vec.divide (Vec.tail (B.get 0)) (Scalar.sqrt (Mat.entry A 0 0))) := by
          intro i hi
          rw [Vec.getElem_divide, Vec.getElem_divide]
          refine FaintZeros.div _ ?_
          have hentry : Scalar.Alike (A.get 0)[i + 1] (B.get 0)[i + 1] :=
            h 0 (Nat.succ_pos n) (i + 1) (Nat.succ_lt_succ hi)
          simpa [Vec.tail] using hentry
        rw [if_pos hpos, if_pos hpos, ← heq]
        rcases ih (complement_alike h hrow) with ⟨R, S, hR, hS, hrest⟩ | ⟨k, hA, hB⟩
        · dsimp only
          rw [hR, hS]
          exact .inl ⟨_, _, rfl, rfl, .cons _ hrow hrest⟩
        · dsimp only
          rw [hA, hB]
          exact .inr ⟨k + 1, rfl, rfl⟩
      · rw [if_neg hpos, if_neg hpos]
        exact .inr ⟨1, rfl, rfl⟩

/-- Systems that are alike have **the same solution**, or the same defect. -/
theorem solveSystem_alike {A B : Mat α n n} (h : Mat.Alike A B) {b : Vec α n} (hb : b.Solid) :
    solveSystem A b = solveSystem B b := by
  rw [solveSystem, solveSystem, h.finite_eq]
  refine if_congr Iff.rfl rfl ?_
  rcases Triangle.ofMat_alike h with ⟨R, S, hA, hB, hRS⟩ | ⟨k, hA, hB⟩
  · rw [hA, hB]
    dsimp only
    rw [Triangle.solve, Triangle.solve, hRS.forward_eq hb, hRS.backward_eq]
  · rw [hA, hB]

end

end CoEmbed
