import Mathlib

/-!
# Bowls

A function that is quadratic and grows strictly in every direction from one point has its
least value there and nowhere else, and there is no other point at which its derivative
vanishes. Each parameter of a model sees the objective as such a function while the others
stay fixed.

* `Bowl` — a function that grows by a positive quadratic form from its bottom.
* `Bowl.lt`, `Bowl.hasFDerivAt_zero_iff` — the bottom is the one least point and the one
  stationary point.
* `IsQuadratic` — a function of a vector with given matrix and linear part.
* `IsQuadratic.bowl` — it is a bowl if the matrix is positive definite, and its bottom solves
  the system.
* `bowl_mean` — the squared distances from a list of numbers have their bottom at the mean.
-/

open Matrix

namespace CoEmbed

/-- `f` **grows from `x₀`** by a positive form of degree two. -/
structure Bowl {E : Type*} [NormedAddCommGroup E] [NormedSpace ℝ E] (f : E → ℝ) (x₀ : E) :
    Prop where
  differentiable : Differentiable ℝ f
  exists_form : ∃ q : E → ℝ, (∀ x, f x = f x₀ + q (x - x₀)) ∧
    (∀ (t : ℝ) d, q (t • d) = t ^ 2 * q d) ∧ ∀ d, d ≠ 0 → 0 < q d

namespace Bowl

variable {E : Type*} [NormedAddCommGroup E] [NormedSpace ℝ E] {f : E → ℝ} {x₀ x : E}

/-- Every point but the bottom lies **strictly higher**. -/
theorem lt (h : Bowl f x₀) (hx : x ≠ x₀) : f x₀ < f x := by
  obtain ⟨q, hf, -, hpos⟩ := h.exists_form
  have := hpos (x - x₀) (sub_ne_zero.2 hx)
  rw [hf x]
  linarith

/-- No point lies lower than the bottom. -/
theorem le (h : Bowl f x₀) (x : E) : f x₀ ≤ f x := by
  by_cases hx : x = x₀
  · rw [hx]
  · exact (h.lt hx).le

/-- The derivative vanishes **at the bottom only**. -/
theorem hasFDerivAt_zero_iff (h : Bowl f x₀) :
    HasFDerivAt f (0 : E →L[ℝ] ℝ) x ↔ x = x₀ := by
  constructor
  · intro hx
    obtain ⟨q, hf, hsq, hpos⟩ := h.exists_form
    by_contra hne
    -- along the segment from `x` to the bottom the function is a parabola with its foot at `1`
    have hline : HasDerivAt (fun t : ℝ => x + t • (x₀ - x)) (x₀ - x) 0 := by
      simpa using ((hasDerivAt_id (0 : ℝ)).smul_const (x₀ - x)).const_add x
    have hzero : HasDerivAt (fun t : ℝ => f (x + t • (x₀ - x))) 0 0 := by
      have hx' : HasFDerivAt f (0 : E →L[ℝ] ℝ) (x + (0 : ℝ) • (x₀ - x)) := by simpa using hx
      exact (hx'.comp_hasDerivAt (0 : ℝ) hline).congr_deriv rfl
    have hpara : (fun t : ℝ => f (x + t • (x₀ - x)))
        = fun t => f x₀ + (1 - t) ^ 2 * q (x - x₀) := by
      funext t
      rw [hf, ← hsq]
      congr 2
      module
    have hslope : HasDerivAt (fun t : ℝ => f x₀ + (1 - t) ^ 2 * q (x - x₀))
        (-2 * q (x - x₀)) 0 := by
      have h1 : HasDerivAt (fun t : ℝ => 1 - t) (-1) 0 := by
        simpa using (hasDerivAt_id (0 : ℝ)).const_sub 1
      have h2 := ((h1.pow 2).mul_const (q (x - x₀))).const_add (f x₀)
      simpa using h2
    rw [hpara] at hzero
    have := hzero.unique hslope
    have hq := hpos (x - x₀) (sub_ne_zero.2 hne)
    linarith
  · rintro rfl
    have hmin : IsLocalMin f x := Filter.Eventually.of_forall h.le
    have hd := (h.differentiable x).hasFDerivAt
    rwa [hmin.hasFDerivAt_eq_zero hd] at hd

end Bowl

/-! ### Quadratic functions of a vector -/

/-- `f x` is `x · A x - 2 b · x` **up to a constant**. -/
def IsQuadratic {n : ℕ} (f : (Fin n → ℝ) → ℝ) (A : Matrix (Fin n) (Fin n) ℝ) (b : Fin n → ℝ) :
    Prop :=
  ∃ c, ∀ x, f x = x ⬝ᵥ A *ᵥ x - (b ⬝ᵥ x + b ⬝ᵥ x) + c

namespace IsQuadratic

variable {n : ℕ} {f g : (Fin n → ℝ) → ℝ} {A B : Matrix (Fin n) (Fin n) ℝ} {a b : Fin n → ℝ}

/-- A constant has no matrix and no linear part. -/
theorem const (c : ℝ) : IsQuadratic (fun _ : Fin n → ℝ => c) 0 0 :=
  ⟨c, fun x => by simp⟩

theorem add (hf : IsQuadratic f A a) (hg : IsQuadratic g B b) :
    IsQuadratic (fun x => f x + g x) (A + B) (a + b) := by
  obtain ⟨c, hc⟩ := hf
  obtain ⟨d, hd⟩ := hg
  refine ⟨c + d, fun x => ?_⟩
  change f x + g x = _
  rw [hc, hd, add_mulVec, dotProduct_add, add_dotProduct]
  ring

theorem smul (c : ℝ) (hf : IsQuadratic f A a) :
    IsQuadratic (fun x => c * f x) (c • A) (c • a) := by
  obtain ⟨d, hd⟩ := hf
  refine ⟨c * d, fun x => ?_⟩
  change c * f x = _
  rw [hd, smul_mulVec, dotProduct_smul, smul_dotProduct, smul_eq_mul, smul_eq_mul]
  ring

/-- A **finite sum** of quadratic functions is quadratic. -/
theorem sum {ι : Type*} (s : Finset ι) {f : ι → (Fin n → ℝ) → ℝ}
    {A : ι → Matrix (Fin n) (Fin n) ℝ} {b : ι → Fin n → ℝ}
    (h : ∀ k ∈ s, IsQuadratic (f k) (A k) (b k)) :
    IsQuadratic (fun x => ∑ k ∈ s, f k x) (∑ k ∈ s, A k) (∑ k ∈ s, b k) := by
  classical
  induction s using Finset.induction_on with
  | empty => simpa using const (n := n) 0
  | insert k s hk ih =>
      have hs := (h k (Finset.mem_insert_self k s)).add
        (ih fun j hj => h j (Finset.mem_insert_of_mem hj))
      simpa only [Finset.sum_insert hk] using hs

/-- The same over a list. -/
theorem listSum {ι : Type*} (xs : List ι) {f : ι → (Fin n → ℝ) → ℝ}
    {A : ι → Matrix (Fin n) (Fin n) ℝ} {b : ι → Fin n → ℝ}
    (h : ∀ k, IsQuadratic (f k) (A k) (b k)) :
    IsQuadratic (fun x => (xs.map fun k => f k x).sum) (xs.map A).sum (xs.map b).sum := by
  induction xs with
  | nil => simpa using const (n := n) 0
  | cons k xs ih => simpa only [List.map_cons, List.sum_cons] using (h k).add ih

/-- The squared error of an **inner product** against a number. -/
theorem error (r : ℝ) (v : Fin n → ℝ) :
    IsQuadratic (fun x => (r - v ⬝ᵥ x) ^ 2) (vecMulVec v v) (r • v) := by
  refine ⟨r ^ 2, fun x => ?_⟩
  rw [vecMulVec_mulVec, dotProduct_smul, smul_dotProduct, dotProduct_comm x v]
  simp only [op_smul_eq_smul, smul_eq_mul]
  ring

/-- The squared length. -/
theorem normSq : IsQuadratic (fun x : Fin n → ℝ => x ⬝ᵥ x) 1 0 :=
  ⟨0, fun x => by simp⟩

/-- With a positive definite matrix a quadratic function is a **bowl**, and its bottom is the
solution of the system. -/
theorem bowl {x₀ : Fin n → ℝ} (hf : IsQuadratic f A b) (hA : A.PosDef) (hx : A *ᵥ x₀ = b) :
    Bowl f x₀ := by
  obtain ⟨c, hc⟩ := hf
  have hsymm : ∀ x y : Fin n → ℝ, x ⬝ᵥ A *ᵥ y = (A *ᵥ x) ⬝ᵥ y := fun x y => by
    rw [dotProduct_mulVec, ← mulVec_transpose,
      ← conjTranspose_eq_transpose_of_trivial, hA.isHermitian]
  refine ⟨?_, fun d => d ⬝ᵥ A *ᵥ d, fun x => ?_, fun t d => ?_, fun d hd => ?_⟩
  · rw [funext hc]
    simp only [dotProduct, mulVec]
    fun_prop
  · change f x = f x₀ + (x - x₀) ⬝ᵥ A *ᵥ (x - x₀)
    rw [hc, hc, mulVec_sub, sub_dotProduct, dotProduct_sub, dotProduct_sub, hsymm x₀ x, hsymm x x₀,
      hx, dotProduct_comm (A *ᵥ x) x₀, hsymm x₀ x, hx, dotProduct_comm x₀ b]
    ring
  · change (t • d) ⬝ᵥ A *ᵥ (t • d) = t ^ 2 * (d ⬝ᵥ A *ᵥ d)
    rw [mulVec_smul, smul_dotProduct, dotProduct_smul, smul_eq_mul, smul_eq_mul]
    ring
  · simpa using hA.dotProduct_mulVec_pos hd

end IsQuadratic

/-! ### Squared distances -/

/-- The squared distances from the numbers of a list, as a **parabola around their mean**. -/
theorem sum_sq_sub_eq (rs : List ℝ) (hrs : rs ≠ []) (x : ℝ) :
    (rs.map fun r => (r - x) ^ 2).sum
      = (rs.map fun r => (r - rs.sum / rs.length) ^ 2).sum
        + rs.length * (x - rs.sum / rs.length) ^ 2 := by
  have hexp : ∀ (ys : List ℝ) (y : ℝ), (ys.map fun r => (r - y) ^ 2).sum
      = (ys.map fun r => r ^ 2).sum - 2 * y * ys.sum + ys.length * y ^ 2 := by
    intro ys y
    induction ys with
    | nil => simp
    | cons r ys ih =>
        simp only [List.map_cons, List.sum_cons, List.length_cons, Nat.cast_add, Nat.cast_one]
        rw [ih]
        ring
  have hlen : (rs.length : ℝ) ≠ 0 := by
    rw [Nat.cast_ne_zero]
    exact fun h => hrs (List.length_eq_zero_iff.1 h)
  rw [hexp, hexp]
  field_simp
  ring

/-- Squared distances from the numbers of a list are a **bowl**, and its bottom is their
mean. -/
theorem bowl_mean {f : ℝ → ℝ} (rs : List ℝ) (hrs : rs ≠ []) (c : ℝ)
    (hf : ∀ x, f x = (rs.map fun r => (r - x) ^ 2).sum + c) : Bowl f (rs.sum / rs.length) := by
  have hlen : 0 < (rs.length : ℝ) := Nat.cast_pos.2 (List.length_pos_iff.2 hrs)
  refine ⟨?_, fun d => rs.length * d ^ 2, fun x => ?_, fun t d => ?_, fun d hd => by positivity⟩
  · have hf' : f = fun x => (rs.map fun r => (r - rs.sum / rs.length) ^ 2).sum
        + rs.length * (x - rs.sum / rs.length) ^ 2 + c :=
      funext fun x => by rw [hf, sum_sq_sub_eq rs hrs]
    rw [hf']
    fun_prop
  · rw [hf, hf, sum_sq_sub_eq rs hrs x]
    ring
  · rw [smul_eq_mul]
    ring

end CoEmbed
