import CoEmbed.Proofs.Objective.Loss

/-!
# What the Updates Put in Place

Each closed-form update computes the bottom of the objective along its own block. The updates
of items read the rows of their own item, where the objective has the item's column; that the
tables are transposes and the weights symmetric makes the two the same.

* `Training.HasNeighbor` — some neighbour of an item has a row of its own.
* `Model.bowl_theta`, `Model.bowl_beta`, `Model.bowl_gamma` — the vectors.
* `Model.bowl_betaBias`, `Model.bowl_gammaBias`, `Model.bowl_globalBias` — the biases.
-/

open Matrix

namespace CoEmbed

variable {n : ℕ}

/-- Some **neighbour** of an item has a row of its own. -/
def Training.HasNeighbor {ρ : Type} (t : Training ρ) (i : Key) : Prop :=
  ∃ e ∈ t.row i, e.1 ∈ t.itemUsers

namespace Model

variable {m : Model ℝ n} {t : Training ℝ}

theorem Covers.hasNeighbor_beta (hm : m.Covers t) (i : Key) :
    CoEmbed.HasNeighbor m.beta (t.row i) ↔ t.HasNeighbor i :=
  exists_congr fun e => and_congr_right fun _ => hm.beta e.1

theorem Covers.hasNeighbor_gamma (hm : m.Covers t) (i : Key) :
    CoEmbed.HasNeighbor m.gamma (t.row i) ↔ t.HasNeighbor i :=
  exists_congr fun e => and_congr_right fun _ => hm.gamma e.1

/-! ### Vectors -/

/-- The new vector of a **user** is the bottom of the objective along that vector. -/
theorem bowl_theta (hm : m.Covers t) {u : Key} {ks : List Key} (hu : t.userItems.get? u = some ks)
    {v : Vec ℝ n}
    (hv : newTheta ks m.beta (m.beta.background m.hyper.unobserved m.hyper.ridgeTheta)
      m.hyper.unobserved m.hyper.observed = .ok v) :
    Bowl (fun x => t.objective m.hyper ((Block.theta u).set m.point x)) v.coords := by
  obtain ⟨hpos, heq⟩ := newTheta_eq_ok_iff.1 hv
  have hcount : ∀ i, ks.count i = t.seen u i := fun i => by rw [Training.seen, hu]; rfl
  have hq := t.isQuadratic_theta m.hyper m.point (Table.mem_domain.2 (Table.mem_of_get? hu))
  rw [observedMatrix, hm.domain_beta] at hpos heq
  rw [observedTarget, hm.domain_beta] at heq
  simp only [hcount] at hpos heq
  exact hq.bowl hpos heq

/-- The new vector of an **item** is the bottom of the objective along that vector. -/
theorem bowl_beta (hm : m.Covers t) (ht : t.Transposed) {i : Key} {ks : List Key}
    (hi : t.itemUsers.get? i = some ks) {v : Vec ℝ n}
    (hv : newBeta i ks (t.row i) m.theta m.gamma m.seenBetaBias m.seenGammaBias
      (m.theta.background m.hyper.unobserved m.hyper.ridgeBeta) m.hyper.unobserved
      m.hyper.observed m.globalBias = .ok v) :
    Bowl (fun x => t.objective m.hyper ((Block.beta i).set m.point x)) v.coords := by
  obtain ⟨hpos, heq⟩ := newBeta_eq_ok_iff.1 hv
  have hmem : i ∈ t.itemUsers := Table.mem_of_get? hi
  have hcount : ∀ u ∈ t.users, ks.count u = t.seen u i := fun u hu => by
    rw [← ht u (Table.mem_domain.1 hu) i hmem, hi]
    rfl
  have hq := t.isQuadratic_beta m.hyper m.point (Table.mem_domain.2 hmem)
  have hA : observedMatrix m.theta ks m.hyper.unobserved m.hyper.observed m.hyper.ridgeBeta
      = ∑ u ∈ t.users, (m.hyper.unobserved + (t.seen u i : ℝ)
          * (m.hyper.observed - m.hyper.unobserved)) • outer (m.point.theta u)
        + m.hyper.ridgeBeta • (1 : Matrix (Fin n) (Fin n) ℝ) := by
    rw [observedMatrix, hm.domain_theta]
    exact congrArg (· + _) (Finset.sum_congr rfl fun u hu => by rw [hcount u hu]; rfl)
  have hb : observedTarget m.theta ks m.hyper.observed
      = ∑ u ∈ t.users, ((t.seen u i : ℝ) * m.hyper.observed) • m.point.theta u := by
    rw [observedTarget, hm.domain_theta]
    exact Finset.sum_congr rfl fun u hu => by rw [hcount u hu]; rfl
  have hrest : restOf m.seenBetaBias m.seenGammaBias m.globalBias i
      = m.point.unbiased m.hyper i := by
    funext j w
    rw [restOf, scalar_seenBetaBias, scalar_seenGammaBias]
    rfl
  rw [hA, rowMatrix_eq_sum, hm.domain_gamma] at hpos heq
  rw [hb, rowTarget_eq_sum, hm.domain_gamma, hrest] at heq
  exact hq.bowl hpos heq

/-- The new vector of an item **as a neighbour** is the bottom of the objective along that
vector. -/
theorem bowl_gamma (hm : m.Covers t) (hs : t.Symmetric) {j : Key} (hj : j ∈ t.itemUsers)
    (hn : t.HasNeighbor j) {v : Vec ℝ n}
    (hv : newGamma j (t.row j) m.beta m.seenBetaBias m.seenGammaBias m.hyper.ridgeGamma
      m.globalBias = .ok (some v)) :
    Bowl (fun x => t.objective m.hyper ((Block.gamma j).set m.point x)) v.coords := by
  obtain ⟨v', hv', hpos, heq⟩ := (newGamma_eq_ok_iff ((hm.hasNeighbor_beta j).2 hn)).1 hv
  obtain rfl := Option.some.inj hv'
  have hmem : j ∈ t.items := Table.mem_domain.2 hj
  have hq := t.isQuadratic_gamma m.hyper m.point hmem
  have hA : rowMatrix m.beta (t.row j)
      = ∑ i ∈ t.items, ((t.weights i j).map fun _ => outer (m.point.beta i)).sum := by
    rw [rowMatrix_eq_sum, hm.domain_beta]
    exact Finset.sum_congr rfl fun i hi => ((hs.weights_perm hmem hi).map _).sum_eq
  have hb : rowTarget m.beta (t.row j) (restOf m.seenGammaBias m.seenBetaBias m.globalBias j)
      = ∑ i ∈ t.items,
          ((t.weights i j).map fun w => m.point.unbiased m.hyper i j w • m.point.beta i).sum := by
    rw [rowTarget_eq_sum, hm.domain_beta]
    refine Finset.sum_congr rfl fun i hi => ?_
    rw [← ((hs.weights_perm hmem hi).map _).sum_eq]
    refine congrArg List.sum (List.map_congr_left fun w _ => ?_)
    rw [restOf, scalar_seenBetaBias, scalar_seenGammaBias, Point.unbiased]
    refine congrArg (· • _) ?_
    change w - _ - _ - m.globalBias = w - _ - _ - m.globalBias
    ring
  rw [hA] at hpos heq
  rw [hb] at heq
  exact hq.bowl hpos heq

/-! ### Biases -/

/-- A mean that is put in place is the bottom of the squared distances. -/
theorem bowl_meanOf {f : ℝ → ℝ} {rs : List ℝ} {b : ℝ} (hb : meanOf rs = some b)
    (hf : ∃ c, ∀ x, f x = (rs.map fun r => (r - x) ^ 2).sum + c) : Bowl f b := by
  obtain ⟨c, hc⟩ := hf
  rw [meanOf] at hb
  split at hb
  · cases hb
  · next hrs =>
      obtain rfl := Option.some.inj hb
      exact bowl_mean rs hrs c hc

/-- There is a mean exactly if there are numbers. -/
theorem meanOf_eq_none_iff {rs : List ℝ} : meanOf rs = none ↔ rs = [] := by
  rw [meanOf]
  split <;> simp_all

/-- The new **bias of an item** is the bottom of the objective along that bias; there is one
exactly if the item has a neighbour. -/
theorem bowl_betaBias (hm : m.Covers t) (hb : m.hyper.useBias = true) {i : Key}
    (hi : i ∈ t.itemUsers) {o : Option ℝ}
    (ho : newBias i (t.row i) m.beta m.gamma (some m.gammaBias) m.globalBias = .ok o) :
    (∀ b, o = some b →
      Bowl (fun x => t.objective m.hyper ((Block.betaBias i).set m.point x)) b)
      ∧ (o = none ↔ ¬ t.HasNeighbor i) := by
  rw [newBias_eq, if_pos ((hm.beta i).2 hi)] at ho
  obtain rfl := Except.ok.inj ho
  refine ⟨fun b hmean => bowl_meanOf hmean ?_, ?_⟩
  · obtain ⟨c, hc⟩ := t.exists_objective_betaBias m.point hb (Table.mem_domain.2 hi)
    refine ⟨c, fun x => (hc x).trans ?_⟩
    rw [sum_residuals, hm.domain_gamma]
    rfl
  · rw [meanOf_eq_none_iff, ← hm.hasNeighbor_gamma i, ← not_iff_not, not_not]
    exact residuals_ne_nil_iff

/-- The new bias of an item **as a neighbour** is the bottom of the objective along that bias;
there is one exactly if the item has a neighbour. -/
theorem bowl_gammaBias (hm : m.Covers t) (hs : t.Symmetric) (hb : m.hyper.useBias = true) {j : Key}
    (hj : j ∈ t.itemUsers) {o : Option ℝ}
    (ho : newBias j (t.row j) m.gamma m.beta (some m.betaBias) m.globalBias = .ok o) :
    (∀ b, o = some b →
      Bowl (fun x => t.objective m.hyper ((Block.gammaBias j).set m.point x)) b)
      ∧ (o = none ↔ ¬ t.HasNeighbor j) := by
  rw [newBias_eq, if_pos ((hm.gamma j).2 hj)] at ho
  obtain rfl := Except.ok.inj ho
  refine ⟨fun b hmean => bowl_meanOf hmean ?_, ?_⟩
  · have hmem : j ∈ t.items := Table.mem_domain.2 hj
    obtain ⟨c, hc⟩ := t.exists_objective_gammaBias m.point hb hmem
    refine ⟨c, fun x => (hc x).trans ?_⟩
    rw [sum_residuals, hm.domain_beta]
    refine congrArg (· + c) (Finset.sum_congr rfl fun i hi => ?_)
    rw [dotProduct_comm]
    exact ((hs.weights_perm hmem hi).map _).sum_eq.symm
  · rw [meanOf_eq_none_iff, ← hm.hasNeighbor_beta j, ← not_iff_not, not_not]
    exact residuals_ne_nil_iff

/-- The new **global bias** is the bottom of the objective along that bias; there is one exactly
if some item has a neighbour. -/
theorem bowl_globalBias (hm : m.Covers t) (hb : m.hyper.useBias = true) {o : Option ℝ}
    (ho : newGlobalBias t.itemUsers.keys t.rows m.beta m.gamma (some m.betaBias)
      (some m.gammaBias) = .ok o) :
    (∀ b, o = some b →
      Bowl (fun x => t.objective m.hyper (Block.globalBias.set m.point x)) b)
      ∧ (o = none ↔ ¬ ∃ i ∈ t.itemUsers, t.HasNeighbor i) := by
  rw [newGlobalBias_eq] at ho
  obtain rfl := Except.ok.inj ho
  refine ⟨fun b hmean => bowl_meanOf hmean ?_, ?_⟩
  · obtain ⟨c, hc⟩ := t.exists_objective_globalBias m.point hb
    refine ⟨c, fun x => (hc x).trans ?_⟩
    rw [List.map_flatMap, List.flatMap_def, List.sum_flatten, List.map_map, Training.items,
      Table.domain, List.sum_toFinset _ t.itemUsers.nodup_keys]
    refine congrArg (fun ys => ys.sum + c) (List.map_congr_left fun i hi => ?_)
    rw [Function.comp_apply, globalResiduals, if_pos ((hm.beta i).2 hi), sum_residuals,
      hm.domain_gamma]
    rfl
  · rw [meanOf_eq_none_iff, List.flatMap_eq_nil_iff, not_exists]
    refine forall_congr' fun i => ?_
    rw [not_and]
    refine imp_congr_right fun hi => ?_
    rw [globalResiduals, if_pos ((hm.beta i).2 hi), ← hm.hasNeighbor_gamma i, ← not_iff_not,
      not_not]
    exact residuals_ne_nil_iff

end Model

end CoEmbed
