import CoEmbed.Proofs.Minimum.Rows

/-!
# The Vector of an Item as a Minimum

The vector of an item stands in two losses: the item's column among the preferences and its row
among the neighbours' weights. The update of the vector solves one system for both.

* `betaLoss` — what the update lowers, as a function of the vector.
* `betaLoss_eq` — both losses on the context of the item, in closed form.
* `newBeta_is_minimum` — the update returns the one minimum, and nothing where there is none.

## Neighbour convention

An item may be its own neighbour. Its row then names its vector as a neighbour, which stays fixed.
-/

open Matrix

namespace CoEmbed

variable {n : ℕ} (theta beta gamma : Factors ℝ n)
  (betaBias gammaBias : Option (Table Key (Bias ℝ))) (c₀ c₁ ridge globalBias : ℝ) (i : Key)
  (raters : List Key) (row : Option (Row ℝ))

/-- What the update of the vector of an **item** lowers, as a function of that vector: both losses
on the context of the item, and the ridge. -/
noncomputable def betaLoss (x : Vec ℝ n) : Except Fault ℝ := do
  let context := [Sample.item i (asFeatures raters (1 : ℝ)) row]
  let preferences ← preferenceLoss context (beta.insert i x) theta c₀ c₁
  let neighbors ← neighborLoss context (beta.insert i x) gamma betaBias gammaBias globalBias
  return preferences + neighbors + ridge * Vec.normSq x

/-- The error of the preferences on the context of an item: the item's vector **against the
users**. -/
theorem preferenceLoss_item (x : Vec ℝ n) (features : List (Feature ℝ)) :
    preferenceLoss [Sample.item i features row] (beta.insert i x) theta c₀ c₁
      = .ok (∑ u ∈ theta.domain,
          scoreError c₀ c₁ (weightsOf features u) (x.coords ⬝ᵥ theta.vectorAt u)) := by
  rw [preferenceLoss, List.foldlM_cons]
  dsimp only
  rw [Table.get?_insert_self]
  by_cases hsize : theta.size = 0
  · simp only [if_pos hsize, Factors.size_eq_zero_iff.1 hsize, Finset.sum_empty]
    rfl
  · simp only [if_neg hsize, sliceLoss_eq_sum]
    exact congrArg Except.ok (zero_add _)

/-- The error of the weights on the context of an item: the error of **its row**. -/
theorem neighborLoss_item (x : Vec ℝ n) (features : List (Feature ℝ)) :
    neighborLoss [Sample.item i features row] (beta.insert i x) gamma betaBias gammaBias globalBias
      = .ok (neighborError gamma betaBias gammaBias globalBias i (row.getD []) x.coords) := by
  have hi : i ∈ beta.insert i x := Table.mem_insert.2 (.inl rfl)
  rw [neighborLoss_context gamma betaBias gammaBias globalBias hi, Factors.vectorAt_insert,
    Function.update_self]

/-- Both losses and the ridge **in closed form**. -/
theorem betaLoss_eq (x : Vec ℝ n) :
    betaLoss theta beta gamma betaBias gammaBias c₀ c₁ ridge globalBias i raters row x
      = .ok (∑ u ∈ theta.domain,
            scoreError c₀ c₁ (weightsOf (asFeatures raters 1) u) (x.coords ⬝ᵥ theta.vectorAt u)
          + ridge * (x.coords ⬝ᵥ x.coords)
          + neighborError gamma betaBias gammaBias globalBias i (row.getD []) x.coords) := by
  rw [betaLoss, preferenceLoss_item, neighborLoss_item, Vec.normSq_eq]
  exact congrArg Except.ok (add_right_comm _ _ _)

variable {theta gamma betaBias gammaBias c₀ c₁ ridge globalBias i raters row}

/-- **The new vector of an item is a minimum**: whatever is fixed and whoever is listed, the update
returns a vector exactly if both losses on the context of the item and the ridge are least at that
vector and nowhere else. -/
theorem newBeta_is_minimum {v : Vec ℝ n} :
    newBeta i raters (row.getD []) theta gamma betaBias gammaBias (theta.background c₀ ridge) c₀ c₁
        globalBias = .ok v
      ↔ UniqueMinimum
          (betaLoss theta beta gamma betaBias gammaBias c₀ c₁ ridge globalBias i raters row)
          Set.univ v := by
  have hquadratic := (isQuadratic_slice theta raters c₀ c₁ ridge).add
    (isQuadratic_neighborError gamma betaBias gammaBias globalBias i (row.getD []))
  have hsymm := (isSymm_observedMatrix theta raters c₀ c₁ ridge).add
    (isSymm_rowMatrix gamma (row.getD []))
  rw [newBeta_eq_ok_iff]
  exact (hquadratic.uniqueMinimum_iff hsymm
    (betaLoss_eq theta beta gamma betaBias gammaBias c₀ c₁ ridge globalBias i raters row)).symm

/-- An item that is its own neighbour twice, with a **user and a neighbour** that nobody has
registered. -/
theorem newBeta_is_minimum_selfish :
    let i := Key.text "a"
    let theta : Factors ℝ 1 := Table.ofList [(.text "u", #v[1]), (.text "v", #v[2])]
    let beta : Factors ℝ 1 := Table.ofList [(i, #v[3])]
    let gamma : Factors ℝ 1 := Table.ofList [(i, #v[1])]
    let biases : Option (Table Key (Bias ℝ)) := some (Table.ofList [(i, .real 1)])
    let raters : List Key := [.text "u", .text "ghost", .text "u"]
    let row : Row ℝ := [(i, 2), (.text "nobody", 1), (i, 3)]
    ∃ v, newBeta i raters row theta gamma biases none (theta.background 1 1) 1 2 (1 / 2) = .ok v ∧
      UniqueMinimum (betaLoss theta beta gamma biases none 1 2 1 (1 / 2) i raters (some row))
        Set.univ v := by
  intro i theta beta gamma biases raters row
  have hpos := (posDef_observedMatrix_of_le theta raters zero_le_one one_le_two
    zero_lt_one).add_posSemidef (posSemidef_rowMatrix gamma row)
  obtain ⟨v, hsolved⟩ := exists_mulVec_eq hpos (observedTarget theta raters 2
    + rowTarget gamma row (restOf biases none (1 / 2) i))
  have hv : newBeta i raters ((some row).getD []) theta gamma biases none (theta.background 1 1)
      1 2 (1 / 2) = .ok v := newBeta_eq_ok_iff.2 ⟨hpos, hsolved⟩
  exact ⟨v, hv, (newBeta_is_minimum beta).1 hv⟩

end CoEmbed
