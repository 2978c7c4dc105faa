import CoEmbed.Proofs.Objective.Closed
import CoEmbed.Proofs.Run

/-!
# The Loss in Closed Form

The loss of a model that covers its tables is the objective at its parameters. Nothing in it
can fail in exact arithmetic, so a model always has a loss.

* `scoreError` — the error of one score, whatever is observed for its pair.
* `sliceLoss_eq_sum`, `rowLoss_eq`, `ridgeLoss_eq` — the parts of the loss as sums over keys.
* `Model.loss_eq` — the loss on the samples that a model is trained on.

## Order convention

The loss runs over the rows of the tables, and the objective over sets of keys. The order of
the rows is lost on the way; in exact arithmetic it makes no difference.
-/

open Matrix

namespace CoEmbed

variable {n : ℕ}

namespace Model.Covers

variable {α : Type} {m : Model α n} {t : Training ℝ}

theorem domain_theta (h : m.Covers t) : m.theta.domain = t.users := by
  ext k
  exact Table.mem_domain.trans ((h.theta k).trans Table.mem_domain.symm)

theorem domain_beta (h : m.Covers t) : m.beta.domain = t.items := by
  ext k
  exact Table.mem_domain.trans ((h.beta k).trans Table.mem_domain.symm)

theorem domain_gamma (h : m.Covers t) : m.gamma.domain = t.items := by
  ext k
  exact Table.mem_domain.trans ((h.gamma k).trans Table.mem_domain.symm)

end Model.Covers

/-! ### The parts of the loss -/

@[simp] theorem squared_real (x : ℝ) : squared x = .ok (x ^ 2) := by
  rw [squared, Scalar.square?_real, sq]

@[simp] theorem paired_eq (u v : Vec ℝ n) : paired u v = .ok (u.coords ⬝ᵥ v.coords) := by
  rw [paired, Vec.pairing_self, Vec.dot_eq]

/-- A table without vectors has no keys. -/
theorem Factors.size_eq_zero_iff {α : Type} {W : Factors α n} : W.size = 0 ↔ W.domain = ∅ := by
  rw [Table.size, List.length_eq_zero_iff, Table.domain, List.toFinset_eq_empty_iff, Table.keys,
    List.map_eq_nil_iff]

/-- The error of one **score** of a pair for which some values are observed: without any it is that
of an unobserved pair, and each value exchanges that error for its own. -/
noncomputable def scoreError (c₀ c₁ : ℝ) (vs : List ℝ) (x : ℝ) : ℝ :=
  c₀ * x ^ 2 + (vs.map fun v => c₁ * (v - x) ^ 2 - c₀ * x ^ 2).sum

/-- The order in which values are observed makes no difference. -/
theorem scoreError_perm {vs ws : List ℝ} (h : vs.Perm ws) (c₀ c₁ x : ℝ) :
    scoreError c₀ c₁ vs x = scoreError c₀ c₁ ws x := by
  rw [scoreError, scoreError, (h.map _).sum_eq]

/-- A pair that is observed with the value one, some number of times. -/
theorem scoreError_replicate (h : Hyper ℝ) (k : ℕ) (x : ℝ) :
    scoreError h.unobserved h.observed (List.replicate k 1) x = h.cell k x := by
  rw [scoreError, List.map_replicate, List.sum_replicate, nsmul_eq_mul]
  rfl

/-- A key is observed with one value **as often as it is listed**. -/
theorem weightsOf_asFeatures {ρ : Type} (ks : List Key) (x : ρ) (k : Key) :
    weightsOf (asFeatures ks x) k = List.replicate (ks.count k) x := by
  induction ks with
  | nil => rfl
  | cons l ks ih =>
      rw [asFeatures, List.map_cons, weightsOf_cons, ← asFeatures, ih, List.count_cons]
      by_cases h : l = k <;> simp [h, List.replicate_succ]

/-- The error of one vector against a whole table is a sum over the keys of the table: each
counts as unobserved, but for **the values that are observed for it**. -/
theorem sliceLoss_eq_sum (c₀ c₁ : ℝ) (v : Vec ℝ n) (others : Factors ℝ n)
    (features : List (Feature ℝ)) :
    sliceLoss v others features c₀ c₁
      = .ok (∑ k ∈ others.domain,
          scoreError c₀ c₁ (weightsOf features k) (v.coords ⬝ᵥ others.vectorAt k)) := by
  let exchange (k : Key) (x : ℝ) : ℝ := if k ∈ others then
    c₁ * (x - v.coords ⬝ᵥ others.vectorAt k) ^ 2 - c₀ * (v.coords ⬝ᵥ others.vectorAt k) ^ 2 else 0
  have hall : others.values.mapM (fun w => paired w v)
      = .ok (others.values.map fun w => w.coords ⬝ᵥ v.coords) := by
    simp only [paired_eq]
    exact List.mapM_pure
  have hsum : Scalar.total ((others.values.map fun w => w.coords ⬝ᵥ v.coords).map fun p => p * p)
      = ∑ k ∈ others.domain, (v.coords ⬝ᵥ others.vectorAt k) ^ 2 := by
    rw [Scalar.total_real, List.map_map, ← others.sum_values fun x => (v.coords ⬝ᵥ x) ^ 2]
    refine congrArg List.sum (List.map_congr_left fun w _ => ?_)
    rw [Function.comp_apply, dotProduct_comm, sq]
  have hobserved : (features.map fun f => exchange f.1 f.2).sum
      = ∑ k ∈ others.domain, ((weightsOf features k).map (exchange k)).sum := by
    refine sum_map_eq_sum_weightsOf others.domain features exchange fun k hk x => ?_
    exact if_neg fun hmem => hk (Table.mem_domain.2 hmem)
  rw [sliceLoss, hall]
  change List.foldlM _ _ features = _
  rw [hsum, foldlM_ok_add _ fun f => exchange f.1 f.2]
  · change Except.ok (c₀ * _ + _) = _
    rw [hobserved, Finset.mul_sum, ← Finset.sum_add_distrib]
    refine congrArg Except.ok (Finset.sum_congr rfl fun k hk => ?_)
    simp only [exchange, Table.mem_domain.1 hk, if_true]
    rfl
  · intro s f _
    cases hf : others.get? f.1 with
    | none => rw [show exchange f.1 f.2 = 0 from if_neg (Table.get?_eq_none_iff.1 hf), add_zero]
    | some w =>
        simp only [exchange, Table.mem_of_get? hf, if_true, Factors.vectorAt_of_get? hf, paired_eq,
          operand_scalar, squared_real]
        rfl

/-- The error of one vector where each key that is listed is observed with **the value one**. -/
theorem sliceLoss_eq (h : Hyper ℝ) (v : Vec ℝ n) (others : Factors ℝ n) (ks : List Key) :
    sliceLoss v others (asFeatures ks (1 : ℝ)) h.unobserved h.observed
      = .ok (∑ k ∈ others.domain, h.cell (ks.count k) (v.coords ⬝ᵥ others.vectorAt k)) := by
  rw [sliceLoss_eq_sum]
  simp only [weightsOf_asFeatures, scoreError_replicate]

/-- The squared error of one row is a sum over the keys of the neighbours' table. -/
theorem rowLoss_eq (i : Key) (v : Vec ℝ n) (row : Row ℝ) (gamma : Factors ℝ n)
    (betaBias gammaBias : Option (Table Key (Bias ℝ))) (globalBias loss : ℝ) :
    rowLoss i v row gamma betaBias gammaBias globalBias loss
      = .ok (loss + ∑ j ∈ gamma.domain, ((weightsOf row j).map fun w =>
          (w - v.coords ⬝ᵥ gamma.vectorAt j - (biasOf betaBias i).scalar
            - (biasOf gammaBias j).scalar - globalBias) ^ 2).sum) := by
  rw [rowLoss, foldlM_ok_add _ fun e => if e.1 ∈ gamma then
    (e.2 - v.coords ⬝ᵥ gamma.vectorAt e.1 - (biasOf betaBias i).scalar
      - (biasOf gammaBias e.1).scalar - globalBias) ^ 2 else 0]
  · rw [sum_map_eq_sum_weightsOf gamma.domain row fun j w => if j ∈ gamma then
      (w - v.coords ⬝ᵥ gamma.vectorAt j - (biasOf betaBias i).scalar
        - (biasOf gammaBias j).scalar - globalBias) ^ 2 else 0]
    · refine congrArg (fun s => Except.ok (loss + s)) (Finset.sum_congr rfl fun j hj => ?_)
      simp only [Table.mem_domain.1 hj, if_true]
    · intro j hj w
      rw [if_neg fun hmem => hj (Table.mem_domain.2 hmem)]
  · intro s e _
    cases he : gamma.get? e.1 with
    | none => rw [if_neg (Table.get?_eq_none_iff.1 he), add_zero]
    | some w =>
        rw [if_pos (Table.mem_of_get? he), Factors.vectorAt_of_get? he]
        simp only [paired_eq, operand_scalar, squared_real]
        rfl

/-- The ridge of a table is a sum over its keys. -/
theorem ridgeLoss_eq (ridge : ℝ) (W : Factors ℝ n) :
    ridgeLoss ridge W = .ok (ridge * ∑ k ∈ W.domain, W.vectorAt k ⬝ᵥ W.vectorAt k) := by
  have hsum : Scalar.total (W.values.map Vec.normSq)
      = ∑ k ∈ W.domain, W.vectorAt k ⬝ᵥ W.vectorAt k := by
    rw [Scalar.total_real, ← W.sum_values fun x => x ⬝ᵥ x]
    exact congrArg List.sum (List.map_congr_left fun v _ => Vec.normSq_eq v)
  have hnonneg : 0 ≤ ∑ k ∈ W.domain, W.vectorAt k ⬝ᵥ W.vectorAt k :=
    Finset.sum_nonneg fun k _ => by simpa using dotProduct_star_self_nonneg (W.vectorAt k)
  rw [ridgeLoss, hsum]
  by_cases h : W.size = 0
  · rw [if_pos h, Factors.size_eq_zero_iff.1 h, Finset.sum_empty, mul_zero]
    rfl
  · rw [if_neg h, Scalar.sqrt_real]
    simp only [squared_real, Real.sq_sqrt hnonneg]
    rfl

/-! ### The loss of a model -/

namespace Model

variable (m : Model ℝ n) {t : Training ℝ}

/-- The bias of an item as updates and losses read it. -/
theorem scalar_seenBetaBias (k : Key) :
    (biasOf m.seenBetaBias k).scalar = m.hyper.bias m.point.betaBias k := by
  rw [seenBetaBias, Hyper.bias]
  split <;> rfl

theorem scalar_seenGammaBias (k : Key) :
    (biasOf m.seenGammaBias k).scalar = m.hyper.bias m.point.gammaBias k := by
  rw [seenGammaBias, Hyper.bias]
  split <;> rfl

/-- The samples of tables are those of users and those of items. -/
theorem separate_samples {ρ : Type} [One ρ] (t : Training ρ) :
    separate t.samples = .ok (userSamples t.userItems, itemSamples t.itemUsers t.rows) := by
  have hitems : ∀ es : List (Key × List Key),
      separate (es.map fun e => Sample.item e.1 (asFeatures e.2 1) (t.rows.get? e.1))
        = .ok ([], es.map fun e => Sample.item e.1 (asFeatures e.2 1) (t.rows.get? e.1)) := by
    intro es
    induction es with
    | nil => rfl
    | cons e es ih => rw [List.map_cons, separate, ih]; rfl
  have husers : ∀ (es : List (Key × List Key)) (is : List (Sample ρ)),
      separate is = .ok ([], is) →
      separate ((es.map fun e => Sample.user e.1 (asFeatures e.2 1)) ++ is)
        = .ok (es.map fun e => Sample.user e.1 (asFeatures e.2 1), is) := by
    intro es is his
    induction es with
    | nil => exact his
    | cons e es ih => rw [List.map_cons, List.cons_append, separate, ih]; rfl
  exact husers _ _ (hitems _)

/-- The error of the **preferences** of a model. -/
theorem preferenceLoss_eq (hm : m.Covers t) :
    m.preferenceLoss (userSamples (α := ℝ) t.userItems)
      = .ok (t.preferenceError m.hyper m.point) := by
  rw [preferenceLoss, CoEmbed.preferenceLoss, userSamples, List.foldlM_map,
    foldlM_ok_add _ fun e => ∑ i ∈ t.items,
      m.hyper.cell (e.2.count i) (m.theta.vectorAt e.1 ⬝ᵥ m.beta.vectorAt i)]
  · have h := t.userItems.sum_entries fun u ks => ∑ i ∈ t.items,
      m.hyper.cell ((ks.getD []).count i) (m.theta.vectorAt u ⬝ᵥ m.beta.vectorAt i)
    rw [zero_add]
    exact congrArg Except.ok h
  · intro s e he
    obtain ⟨v, hv⟩ := Table.exists_get? ((hm.theta e.1).2 (List.mem_map_of_mem he))
    rw [Factors.vectorAt_of_get? hv]
    simp only [hv]
    by_cases hsize : m.beta.size = 0
    · rw [if_pos hsize, ← hm.domain_beta, Factors.size_eq_zero_iff.1 hsize, Finset.sum_empty,
        add_zero]
    · rw [if_neg hsize, sliceLoss_eq, hm.domain_beta]
      rfl

/-- The error of the **neighbours' weights** of a model. -/
theorem neighborLoss_eq (hm : m.Covers t) :
    m.neighborLoss (itemSamples (α := ℝ) t.itemUsers t.rows)
      = .ok (∑ i ∈ t.items, t.rowError m.hyper m.point i) := by
  rw [neighborLoss, CoEmbed.neighborLoss, itemSamples, List.foldlM_map,
    foldlM_ok_add _ fun e => t.rowError m.hyper m.point e.1]
  · rw [zero_add]
    exact congrArg Except.ok (t.itemUsers.sum_entries fun i _ => t.rowError m.hyper m.point i)
  · intro s e he
    obtain ⟨v, hv⟩ := Table.exists_get? ((hm.beta e.1).2 (List.mem_map_of_mem he))
    simp only [hv]
    rw [rowLoss_eq, hm.domain_gamma]
    refine congrArg (fun x => Except.ok (s + x)) (Finset.sum_congr rfl fun j _ => ?_)
    refine congrArg List.sum (List.map_congr_left fun w _ => ?_)
    rw [scalar_seenBetaBias, scalar_seenGammaBias, ← Factors.vectorAt_of_get? hv, Point.residual,
      Point.unbiased]
    change _ = (w - _ - _ - m.globalBias - m.beta.vectorAt e.1 ⬝ᵥ m.gamma.vectorAt j) ^ 2
    ring

/-- The **ridges** of a model. -/
theorem ridgeLoss_eq (hm : m.Covers t) : m.ridgeLoss = .ok (t.ridges m.hyper m.point) := by
  rw [ridgeLoss, CoEmbed.ridgeLoss_eq, CoEmbed.ridgeLoss_eq, CoEmbed.ridgeLoss_eq, hm.domain_theta,
    hm.domain_beta, hm.domain_gamma]
  rfl

/-- A model that covers its tables **has a loss**, and it is the objective at the model's
parameters. -/
theorem loss_eq (hm : m.Covers t) : m.loss t.samples = .ok (t.objective m.hyper m.point) := by
  refine bind_eq_ok_iff.2 ⟨_, separate_samples t, bind_eq_ok_iff.2 ⟨_, preferenceLoss_eq m hm, ?_⟩⟩
  exact bind_eq_ok_iff.2 ⟨_, neighborLoss_eq m hm, bind_eq_ok_iff.2 ⟨_, ridgeLoss_eq m hm, rfl⟩⟩

end Model

end CoEmbed
