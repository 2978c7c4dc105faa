import CoEmbed.Proofs.Objective.Point

/-!
# The Objective in Closed Form

What training lowers, as a sum over all pairs of a user and an item and over all pairs of two
items. Both sums can be read by rows and by columns, which is why an item's update lowers what
is written as a sum over users, and why the vector of an item as a neighbour, which stands in
the rows of other items, can be fitted to the item's own row.

* `Training.seen`, `Training.weights` — how often a pair is observed, and with which weights.
* `Training.Transposed`, `Training.Symmetric` — the rows of the tables are their columns.
* `Training.objective` — the sum.
* `isQuadratic_parabola` — a parabola of a score, as a function of one of the two vectors.
* `Training.isQuadratic_theta`, `Training.isQuadratic_beta`, `Training.isQuadratic_gamma` — the
  objective as a function of one vector.
* `Training.exists_objective_betaBias`, `Training.exists_objective_gammaBias`,
  `Training.exists_objective_globalBias` — the objective as a function of one bias.
-/

open Matrix

namespace CoEmbed

variable {n : ℕ}

/-! ### The tables as functions of pairs -/

namespace Training

section

variable {ρ : Type}

/-- The **users** that have a row. -/
def users (t : Training ρ) : Finset Key := t.userItems.domain

/-- The **items** that have a row. -/
def items (t : Training ρ) : Finset Key := t.itemUsers.domain

/-- How often an item stands in the row of a user. -/
def seen (t : Training ρ) (u i : Key) : ℕ := ((t.userItems.get? u).getD []).count i

/-- The row of weighted neighbours of an item; empty if it has none. -/
def row (t : Training ρ) (i : Key) : Row ρ := (t.rows.get? i).getD []

/-- The **weights** of an item in the row of another one. -/
def weights (t : Training ρ) (i j : Key) : List ρ := weightsOf (t.row i) j

/-- The two tables are **transposes**: a user stands in the row of an item as often as the item
stands in the row of the user. -/
def Transposed (t : Training ρ) : Prop :=
  ∀ u ∈ t.userItems, ∀ i ∈ t.itemUsers, ((t.itemUsers.get? i).getD []).count u = t.seen u i

/-- The weighted neighbours are **symmetric**: an item stands in the row of another one with
some weight as often as the other one stands in its row. -/
def Symmetric [DecidableEq ρ] (t : Training ρ) : Prop :=
  ∀ i ∈ t.itemUsers, ∀ j ∈ t.itemUsers, ∀ w, (t.row i).count (j, w) = (t.row j).count (i, w)

/-- With symmetric rows two items have the **same weights** for one another. -/
theorem Symmetric.weights_perm [DecidableEq ρ] {t : Training ρ} (h : t.Symmetric) {i j : Key}
    (hi : i ∈ t.items) (hj : j ∈ t.items) : (t.weights i j).Perm (t.weights j i) := by
  rw [List.perm_iff_count]
  intro w
  rw [weights, weights, count_weightsOf, count_weightsOf]
  exact h i (Table.mem_domain.1 hi) j (Table.mem_domain.1 hj) w

end

end Training

/-! ### The objective -/

/-- The error of one **score** of a pair that is observed `k` times. -/
noncomputable def Hyper.cell (h : Hyper ℝ) (k : ℕ) (x : ℝ) : ℝ :=
  h.unobserved * x ^ 2 + k * (h.observed * (1 - x) ^ 2 - h.unobserved * x ^ 2)

/-- A bias as the objective sees it: zero if the model does without. -/
noncomputable def Hyper.bias (h : Hyper ℝ) (b : Key → ℝ) (k : Key) : ℝ :=
  if h.useBias then b k else 0

/-- What the biases leave of a weight. -/
noncomputable def Point.unbiased (p : Point n) (h : Hyper ℝ) (i j : Key) (w : ℝ) : ℝ :=
  w - h.bias p.betaBias i - h.bias p.gammaBias j - p.globalBias

/-- What is left of a weight once the inner product is taken away as well. -/
noncomputable def Point.residual (p : Point n) (h : Hyper ℝ) (i j : Key) (w : ℝ) : ℝ :=
  p.unbiased h i j w - p.beta i ⬝ᵥ p.gamma j

namespace Training

variable (t : Training ℝ) (h : Hyper ℝ) (p : Point n)

/-- The weighted squared error of the **preferences**. -/
noncomputable def preferenceError : ℝ :=
  ∑ u ∈ t.users, ∑ i ∈ t.items, h.cell (t.seen u i) (p.theta u ⬝ᵥ p.beta i)

/-- The squared error of the weights in the row of an item. -/
noncomputable def rowError (i : Key) : ℝ :=
  ∑ j ∈ t.items, ((t.weights i j).map fun w => p.residual h i j w ^ 2).sum

/-- The three **ridges**. -/
noncomputable def ridges : ℝ :=
  h.ridgeTheta * ∑ u ∈ t.users, p.theta u ⬝ᵥ p.theta u
    + h.ridgeBeta * ∑ i ∈ t.items, p.beta i ⬝ᵥ p.beta i
    + h.ridgeGamma * ∑ i ∈ t.items, p.gamma i ⬝ᵥ p.gamma i

/-- What training lowers: the errors of the **preferences** and of the **neighbours' weights**,
and the ridges. -/
noncomputable def objective : ℝ :=
  t.preferenceError h p + ∑ i ∈ t.items, t.rowError h p i + t.ridges h p

end Training

/-! ### The objective as a function of one vector -/

/-- A sum in which only **one term** varies is that term up to a constant. -/
theorem exists_sum_eq_single_add {ι E : Type*} [DecidableEq ι] [Inhabited E] {s : Finset ι}
    {k : ι} (hk : k ∈ s) {f : ι → E → ℝ} (hc : ∀ j ∈ s, j ≠ k → ∀ x y, f j x = f j y) :
    ∃ c, ∀ x, ∑ j ∈ s, f j x = f k x + c := by
  refine ⟨∑ j ∈ s.erase k, f j default, fun x => ?_⟩
  have hrest : ∑ j ∈ s.erase k, f j x = ∑ j ∈ s.erase k, f j default :=
    Finset.sum_congr rfl fun j hj =>
      hc j (Finset.mem_of_mem_erase hj) (Finset.ne_of_mem_erase hj) x default
  rw [← Finset.add_sum_erase s (fun j => f j x) hk, hrest]

/-- A sum in which only one term varies is **as quadratic as that term**. -/
theorem IsQuadratic.sum_single {ι : Type*} [DecidableEq ι] {s : Finset ι} {k : ι} (hk : k ∈ s)
    {f : ι → (Fin n → ℝ) → ℝ} {A : Matrix (Fin n) (Fin n) ℝ} {b : Fin n → ℝ}
    (hq : IsQuadratic (f k) A b) (hc : ∀ j ∈ s, j ≠ k → ∀ x y, f j x = f j y) :
    IsQuadratic (fun x => ∑ j ∈ s, f j x) A b := by
  obtain ⟨c, hq⟩ := hq
  obtain ⟨d, hd⟩ := exists_sum_eq_single_add hk hc
  refine ⟨c + d, fun x => ?_⟩
  change ∑ j ∈ s, f j x = _
  rw [hd, hq, add_assoc]

/-- A **parabola of a score**, as a function of one of the two vectors. -/
theorem isQuadratic_parabola (a b c : ℝ) (v : Fin n → ℝ) :
    IsQuadratic (fun x => a * (x ⬝ᵥ v) ^ 2 - 2 * b * (x ⬝ᵥ v) + c) (a • outer v) (b • v) := by
  refine ⟨c, fun x => ?_⟩
  rw [smul_mulVec, dotProduct_smul, dotProduct_outer_mulVec, smul_dotProduct, dotProduct_comm v x,
    smul_eq_mul, smul_eq_mul]
  ring

/-- The error of a score, as a function of **one of the two vectors**. -/
theorem Hyper.isQuadratic_cell (h : Hyper ℝ) (k : ℕ) (v : Fin n → ℝ) :
    IsQuadratic (fun x => h.cell k (x ⬝ᵥ v))
      ((h.unobserved + (k : ℝ) * (h.observed - h.unobserved)) • outer v)
      (((k : ℝ) * h.observed) • v) := by
  have hcell (x : ℝ) : h.cell k x = (h.unobserved + k * (h.observed - h.unobserved)) * x ^ 2
      - 2 * (k * h.observed) * x + k * h.observed := by
    rw [cell]
    ring
  simp only [hcell]
  exact isQuadratic_parabola _ _ _ v

/-- The error of a list of weights, as a function of **one of the two vectors**. -/
theorem isQuadratic_weights (ws : List ℝ) (rest : ℝ → ℝ) (v : Fin n → ℝ) :
    IsQuadratic (fun x => (ws.map fun w => (rest w - v ⬝ᵥ x) ^ 2).sum)
      (ws.map fun _ => outer v).sum (ws.map fun w => rest w • v).sum :=
  IsQuadratic.listSum ws fun w => IsQuadratic.error (rest w) v

/-- A ridge, as a function of one vector. -/
theorem isQuadratic_ridge {D : Finset Key} {k : Key} (hk : k ∈ D) (ridge : ℝ)
    (W : Key → Fin n → ℝ) :
    IsQuadratic
      (fun x => ridge * ∑ j ∈ D, Function.update W k x j ⬝ᵥ Function.update W k x j)
      (ridge • (1 : Matrix (Fin n) (Fin n) ℝ)) 0 := by
  have hsum : IsQuadratic
      (fun x => ∑ j ∈ D, Function.update W k x j ⬝ᵥ Function.update W k x j)
      (1 : Matrix (Fin n) (Fin n) ℝ) 0 := by
    refine IsQuadratic.sum_single hk ?_ fun j _ hj x y => ?_
    · simp only [Function.update_self]
      exact IsQuadratic.normSq
    · rw [Function.update_of_ne hj, Function.update_of_ne hj]
  have h := hsum.smul ridge
  rwa [smul_zero] at h

namespace Training

variable (t : Training ℝ) (h : Hyper ℝ) (p : Point n)

/-- The objective as a function of the vector of a **user**. -/
theorem isQuadratic_theta {u : Key} (hu : u ∈ t.users) :
    IsQuadratic (fun x => t.objective h ((Block.theta u).set p x))
      (∑ i ∈ t.items, (h.unobserved + (t.seen u i : ℝ) * (h.observed - h.unobserved))
          • outer (p.beta i) + h.ridgeTheta • (1 : Matrix (Fin n) (Fin n) ℝ))
      (∑ i ∈ t.items, ((t.seen u i : ℝ) * h.observed) • p.beta i) := by
  have hpref : IsQuadratic (fun x => t.preferenceError h ((Block.theta u).set p x))
      (∑ i ∈ t.items, (h.unobserved + (t.seen u i : ℝ) * (h.observed - h.unobserved))
          • outer (p.beta i))
      (∑ i ∈ t.items, ((t.seen u i : ℝ) * h.observed) • p.beta i) := by
    refine IsQuadratic.sum_single hu ?_ fun v _ hv x y => ?_
    · simp only [Block.theta, Function.update_self]
      exact IsQuadratic.sum _ fun i _ => h.isQuadratic_cell _ _
    · simp only [Block.theta, Function.update_of_ne hv]
  have hrow : IsQuadratic
      (fun x => ∑ i ∈ t.items, t.rowError h ((Block.theta u).set p x) i) 0 0 :=
    IsQuadratic.const (∑ i ∈ t.items, t.rowError h p i)
  have hridge : IsQuadratic (fun x => t.ridges h ((Block.theta u).set p x))
      (h.ridgeTheta • (1 : Matrix (Fin n) (Fin n) ℝ) + 0 + 0) (0 + 0 + 0) :=
    ((isQuadratic_ridge hu h.ridgeTheta p.theta).add
      (IsQuadratic.const (h.ridgeBeta * ∑ i ∈ t.items, p.beta i ⬝ᵥ p.beta i))).add
        (IsQuadratic.const (h.ridgeGamma * ∑ i ∈ t.items, p.gamma i ⬝ᵥ p.gamma i))
  have hsum := (hpref.add hrow).add hridge
  simp only [add_zero] at hsum
  exact hsum

/-- The objective as a function of the vector of an **item**: the item's column among the
preferences, and its row of neighbours. -/
theorem isQuadratic_beta {i : Key} (hi : i ∈ t.items) :
    IsQuadratic (fun x => t.objective h ((Block.beta i).set p x))
      (∑ u ∈ t.users, (h.unobserved + (t.seen u i : ℝ) * (h.observed - h.unobserved))
          • outer (p.theta u) + h.ridgeBeta • (1 : Matrix (Fin n) (Fin n) ℝ)
        + ∑ j ∈ t.items, ((t.weights i j).map fun _ => outer (p.gamma j)).sum)
      (∑ u ∈ t.users, ((t.seen u i : ℝ) * h.observed) • p.theta u
        + ∑ j ∈ t.items, ((t.weights i j).map fun w => p.unbiased h i j w • p.gamma j).sum) := by
  have hpref : IsQuadratic (fun x => t.preferenceError h ((Block.beta i).set p x))
      (∑ u ∈ t.users, (h.unobserved + (t.seen u i : ℝ) * (h.observed - h.unobserved))
          • outer (p.theta u))
      (∑ u ∈ t.users, ((t.seen u i : ℝ) * h.observed) • p.theta u) := by
    refine IsQuadratic.sum _ fun u _ => IsQuadratic.sum_single hi ?_ fun j _ hj x y => ?_
    · simp only [Block.beta, Function.update_self, dotProduct_comm (p.theta u)]
      exact h.isQuadratic_cell _ _
    · simp only [Block.beta, Function.update_of_ne hj]
  have hrow : IsQuadratic
      (fun x => ∑ j ∈ t.items, t.rowError h ((Block.beta i).set p x) j)
      (∑ j ∈ t.items, ((t.weights i j).map fun _ => outer (p.gamma j)).sum)
      (∑ j ∈ t.items, ((t.weights i j).map fun w => p.unbiased h i j w • p.gamma j).sum) := by
    refine IsQuadratic.sum_single hi ?_ fun j _ hj x y => ?_
    · simp only [rowError, Point.residual, Block.beta, Function.update_self]
      refine IsQuadratic.sum _ fun j _ => ?_
      simp only [dotProduct_comm _ (p.gamma j)]
      exact isQuadratic_weights (t.weights i j) (p.unbiased h i j) (p.gamma j)
    · simp only [rowError, Point.residual, Block.beta, Function.update_of_ne hj]
      rfl
  have hridge : IsQuadratic (fun x => t.ridges h ((Block.beta i).set p x))
      (0 + h.ridgeBeta • (1 : Matrix (Fin n) (Fin n) ℝ) + 0) (0 + 0 + 0) :=
    ((IsQuadratic.const (h.ridgeTheta * ∑ u ∈ t.users, p.theta u ⬝ᵥ p.theta u)).add
      (isQuadratic_ridge hi h.ridgeBeta p.beta)).add
        (IsQuadratic.const (h.ridgeGamma * ∑ i ∈ t.items, p.gamma i ⬝ᵥ p.gamma i))
  have hsum := (hpref.add hrow).add hridge
  simp only [add_zero, zero_add] at hsum
  rw [add_right_comm] at hsum
  exact hsum

/-- The objective as a function of the vector of an item **as a neighbour**: the item's column
among the neighbours' weights. -/
theorem isQuadratic_gamma {j : Key} (hj : j ∈ t.items) :
    IsQuadratic (fun x => t.objective h ((Block.gamma j).set p x))
      (∑ i ∈ t.items, ((t.weights i j).map fun _ => outer (p.beta i)).sum
        + h.ridgeGamma • (1 : Matrix (Fin n) (Fin n) ℝ))
      (∑ i ∈ t.items, ((t.weights i j).map fun w => p.unbiased h i j w • p.beta i).sum) := by
  have hpref : IsQuadratic (fun x => t.preferenceError h ((Block.gamma j).set p x)) 0 0 :=
    IsQuadratic.const (t.preferenceError h p)
  have hrow : IsQuadratic
      (fun x => ∑ i ∈ t.items, t.rowError h ((Block.gamma j).set p x) i)
      (∑ i ∈ t.items, ((t.weights i j).map fun _ => outer (p.beta i)).sum)
      (∑ i ∈ t.items, ((t.weights i j).map fun w => p.unbiased h i j w • p.beta i).sum) := by
    refine IsQuadratic.sum _ fun i _ => IsQuadratic.sum_single hj ?_ fun k _ hk x y => ?_
    · simp only [Point.residual, Block.gamma, Function.update_self]
      exact isQuadratic_weights (t.weights i j) (p.unbiased h i j) (p.beta i)
    · simp only [Point.residual, Block.gamma, Function.update_of_ne hk]
      rfl
  have hridge : IsQuadratic (fun x => t.ridges h ((Block.gamma j).set p x))
      (0 + 0 + h.ridgeGamma • (1 : Matrix (Fin n) (Fin n) ℝ)) (0 + 0 + 0) :=
    ((IsQuadratic.const (h.ridgeTheta * ∑ u ∈ t.users, p.theta u ⬝ᵥ p.theta u)).add
      (IsQuadratic.const (h.ridgeBeta * ∑ i ∈ t.items, p.beta i ⬝ᵥ p.beta i))).add
        (isQuadratic_ridge hj h.ridgeGamma p.gamma)
  have hsum := (hpref.add hrow).add hridge
  simp only [add_zero, zero_add] at hsum
  exact hsum

/-! ### The objective as a function of one bias -/

/-- Where no vector changes, the objective is the error of the **rows** up to a constant. -/
theorem exists_objective_eq_rows {s : ℝ → Point n}
    (htheta : ∀ x, (s x).theta = p.theta) (hbeta : ∀ x, (s x).beta = p.beta)
    (hgamma : ∀ x, (s x).gamma = p.gamma) :
    ∃ c, ∀ x, t.objective h (s x) = ∑ i ∈ t.items, t.rowError h (s x) i + c := by
  refine ⟨t.preferenceError h p + t.ridges h p, fun x => ?_⟩
  have hpref : t.preferenceError h (s x) = t.preferenceError h p := by
    rw [preferenceError, preferenceError, htheta, hbeta]
  have hridge : t.ridges h (s x) = t.ridges h p := by
    rw [ridges, ridges, htheta, hbeta, hgamma]
  rw [objective, hpref, hridge]
  ring

variable {h}

/-- The objective as a function of the **bias of an item**: the squared distances of what is
left of the weights in the item's row. -/
theorem exists_objective_betaBias (hb : h.useBias = true) {i : Key} (hi : i ∈ t.items) :
    ∃ c, ∀ x, t.objective h ((Block.betaBias i).set p x)
      = ∑ j ∈ t.items, ((t.weights i j).map fun w =>
          (w - p.beta i ⬝ᵥ p.gamma j - p.gammaBias j - p.globalBias - x) ^ 2).sum + c := by
  obtain ⟨c, hc⟩ := t.exists_objective_eq_rows h p (s := (Block.betaBias i).set p)
    (fun _ => rfl) (fun _ => rfl) fun _ => rfl
  obtain ⟨d, hd⟩ := exists_sum_eq_single_add hi
    (f := fun k x => t.rowError h ((Block.betaBias i).set p x) k) fun k _ hk x y => by
      simp only [rowError, Point.residual, Point.unbiased, Hyper.bias, Block.betaBias,
        Function.update_of_ne hk]
  refine ⟨d + c, fun x => ?_⟩
  rw [hc, hd, add_assoc]
  refine congrArg (· + (d + c)) (Finset.sum_congr rfl fun j _ => ?_)
  refine congrArg List.sum (List.map_congr_left fun w _ => ?_)
  simp only [Point.residual, Point.unbiased, Hyper.bias, Block.betaBias, Function.update_self,
    hb, if_true]
  ring

/-- The objective as a function of the bias of an item **as a neighbour**: the squared distances
of what is left of the weights in the item's column. -/
theorem exists_objective_gammaBias (hb : h.useBias = true) {j : Key} (hj : j ∈ t.items) :
    ∃ c, ∀ x, t.objective h ((Block.gammaBias j).set p x)
      = ∑ i ∈ t.items, ((t.weights i j).map fun w =>
          (w - p.beta i ⬝ᵥ p.gamma j - p.betaBias i - p.globalBias - x) ^ 2).sum + c := by
  obtain ⟨c, hc⟩ := t.exists_objective_eq_rows h p (s := (Block.gammaBias j).set p)
    (fun _ => rfl) (fun _ => rfl) fun _ => rfl
  have hrow : ∀ i, ∃ d, ∀ x, t.rowError h ((Block.gammaBias j).set p x) i
      = ((t.weights i j).map fun w =>
          (w - p.beta i ⬝ᵥ p.gamma j - p.betaBias i - p.globalBias - x) ^ 2).sum + d := by
    intro i
    obtain ⟨d, hd⟩ := exists_sum_eq_single_add hj
      (f := fun k x => ((t.weights i k).map fun w =>
        ((Block.gammaBias j).set p x).residual h i k w ^ 2).sum) fun k _ hk x y => by
          simp only [Point.residual, Point.unbiased, Hyper.bias, Block.gammaBias,
            Function.update_of_ne hk]
    refine ⟨d, fun x => (hd x).trans ?_⟩
    refine congrArg (· + d) (congrArg List.sum (List.map_congr_left fun w _ => ?_))
    simp only [Point.residual, Point.unbiased, Hyper.bias, Block.gammaBias, Function.update_self,
      hb, if_true]
    ring
  choose d hd using hrow
  refine ⟨∑ i ∈ t.items, d i + c, fun x => ?_⟩
  rw [hc, Finset.sum_congr rfl fun i _ => hd i x, Finset.sum_add_distrib, add_assoc]

/-- The objective as a function of the **global bias**: the squared distances of what is left of
all weights. -/
theorem exists_objective_globalBias (hb : h.useBias = true) :
    ∃ c, ∀ x, t.objective h (Block.globalBias.set p x)
      = ∑ i ∈ t.items, ∑ j ∈ t.items, ((t.weights i j).map fun w =>
          (w - p.beta i ⬝ᵥ p.gamma j - p.betaBias i - p.gammaBias j - x) ^ 2).sum + c := by
  obtain ⟨c, hc⟩ := t.exists_objective_eq_rows h p (s := Block.globalBias.set p)
    (fun _ => rfl) (fun _ => rfl) fun _ => rfl
  refine ⟨c, fun x => ?_⟩
  rw [hc]
  refine congrArg (· + c) (Finset.sum_congr rfl fun i _ => Finset.sum_congr rfl fun j _ => ?_)
  refine congrArg List.sum (List.map_congr_left fun w _ => ?_)
  simp only [Point.residual, Point.unbiased, Hyper.bias, Block.globalBias, hb, if_true]
  ring

end Training

end CoEmbed
