import CoEmbed.Proofs.Minimum.Rows

/-!
# The Vector of a Neighbour as a Minimum

The vector that an item has as a neighbour stands in the rows of other items, and the update reads
the row of the item itself. Where items stand in each other's rows alike, the two say the same, with
the biases of the two sides exchanged.

* `gammaLoss` — what the update lowers, as a function of the vector.
* `neighborError_insert` — the error of one row, as a function of one neighbour's vector.
* `SymmetricOn.rowMatrix_eq`, `SymmetricOn.rowTarget_eq` — the system of a row is that of a column.
* `newGamma_is_minimum` — the update returns the one minimum, and nothing where there is none.

## Neighbour convention

An item that is its own neighbour stands in its own row, which is one of the rows of its column.
-/

open Matrix

namespace CoEmbed

variable {n : ℕ}

section

variable (beta gamma : Factors ℝ n) (betaBias gammaBias : Option (Table Key (Bias ℝ)))
  (ridge globalBias : ℝ) (i : Key) (contexts : List (Key × List (Feature ℝ) × Option (Row ℝ)))

/-- What the update of the vector of an item **as a neighbour** lowers, as a function of that
vector: the error of all rows, and the ridge. -/
noncomputable def gammaLoss (x : Vec ℝ n) : Except Fault ℝ := do
  let error ← neighborLoss (contexts.map fun e => Sample.item e.1 e.2.1 e.2.2) beta
    (gamma.insert i x) betaBias gammaBias globalBias
  return error + ridge * Vec.normSq x

/-- The error of a row, with the vector of **one neighbour** written: the weights of that neighbour,
and the rest of the row. -/
theorem neighborError_insert (k : Key) (row : Row ℝ) (v : Fin n → ℝ) (x : Vec ℝ n) :
    neighborError (gamma.insert i x) betaBias gammaBias globalBias k row v
      = ((weightsOf row i).map fun w =>
          (restOf betaBias gammaBias globalBias k i w - v ⬝ᵥ x.coords) ^ 2).sum
        + ∑ j ∈ gamma.domain.erase i, ((weightsOf row j).map fun w =>
            (restOf betaBias gammaBias globalBias k j w - gamma.vectorAt j ⬝ᵥ v) ^ 2).sum := by
  rw [neighborError, Table.domain_insert,
    ← Finset.add_sum_erase _ _ (Finset.mem_insert_self i gamma.domain),
    Finset.erase_insert_eq_erase, Factors.vectorAt_insert, Function.update_self,
    dotProduct_comm]
  refine congrArg _ (Finset.sum_congr rfl fun j hj => ?_)
  rw [Function.update_of_ne (Finset.ne_of_mem_erase hj)]

/-- What the biases leave of a weight **from either side**. -/
theorem restOf_swap (k j : Key) (w : ℝ) :
    restOf gammaBias betaBias globalBias k j w = restOf betaBias gammaBias globalBias j k w := by
  rw [restOf, restOf]
  ring

variable {beta betaBias gammaBias globalBias i contexts} {rows : Table Key (Row ℝ)}

/-- The matrix of a row is that of a **column**. -/
theorem SymmetricOn.rowMatrix_eq (hs : SymmetricOn beta rows) (hi : i ∈ beta) :
    rowMatrix beta ((rows.get? i).getD [])
      = ∑ k ∈ beta.domain,
          ((weightsOf ((rows.get? k).getD []) i).map fun _ => outer (beta.vectorAt k)).sum :=
  (rowMatrix_eq_sum _ _).trans (hs.sum_row_eq_sum_column hi fun k _ => outer (beta.vectorAt k))

/-- The right-hand side of a row is that of a **column**, with the biases exchanged. -/
theorem SymmetricOn.rowTarget_eq (hs : SymmetricOn beta rows) (hi : i ∈ beta) :
    rowTarget beta ((rows.get? i).getD []) (restOf gammaBias betaBias globalBias i)
      = ∑ k ∈ beta.domain, ((weightsOf ((rows.get? k).getD []) i).map fun w =>
          restOf betaBias gammaBias globalBias k i w • beta.vectorAt k).sum := by
  rw [rowTarget_eq_sum, hs.sum_row_eq_sum_column hi fun k w =>
    restOf gammaBias betaBias globalBias i k w • beta.vectorAt k]
  simp only [restOf_swap]

/-- The error of a column and the ridge are quadratic in the vector of the **neighbour**, with the
system of its own row. -/
theorem SymmetricOn.isQuadratic_column (hs : SymmetricOn beta rows) (hi : i ∈ beta) (ridge c : ℝ) :
    IsQuadratic
      (fun x => ∑ k ∈ beta.domain, ((weightsOf ((rows.get? k).getD []) i).map fun w =>
          (restOf betaBias gammaBias globalBias k i w - beta.vectorAt k ⬝ᵥ x) ^ 2).sum
        + ridge * (x ⬝ᵥ x) + c)
      (rowMatrix beta ((rows.get? i).getD []) + ridge • (1 : Matrix (Fin n) (Fin n) ℝ))
      (rowTarget beta ((rows.get? i).getD []) (restOf gammaBias betaBias globalBias i)) := by
  have hcolumn := IsQuadratic.sum beta.domain fun k _ =>
    isQuadratic_weights (weightsOf ((rows.get? k).getD []) i)
      (restOf betaBias gammaBias globalBias k i) (beta.vectorAt k)
  rw [← hs.rowMatrix_eq hi, ← hs.rowTarget_eq hi] at hcolumn
  have hsum := (hcolumn.add (IsQuadratic.normSq.smul ridge)).add (IsQuadratic.const c)
  simp only [smul_zero, add_zero] at hsum
  exact hsum

/-- The error of all rows and the ridge **in closed form**: what varies is the column. -/
theorem Carries.exists_gammaLoss_eq (hc : Carries beta rows contexts) :
    ∃ c, ∀ x, gammaLoss beta gamma betaBias gammaBias ridge globalBias i contexts x
      = .ok (∑ k ∈ beta.domain, ((weightsOf ((rows.get? k).getD []) i).map fun w =>
            (restOf betaBias gammaBias globalBias k i w - beta.vectorAt k ⬝ᵥ x.coords) ^ 2).sum
          + ridge * (x.coords ⬝ᵥ x.coords) + c) := by
  refine ⟨∑ k ∈ beta.domain, ∑ j ∈ gamma.domain.erase i,
    ((weightsOf ((rows.get? k).getD []) j).map fun w =>
      (restOf betaBias gammaBias globalBias k j w - gamma.vectorAt j ⬝ᵥ beta.vectorAt k) ^ 2).sum,
    fun x => ?_⟩
  rw [gammaLoss, hc.neighborLoss_eq, Vec.normSq_eq]
  simp only [neighborError_insert, Finset.sum_add_distrib]
  exact congrArg Except.ok (add_right_comm _ _ _)

end

/-- **The new vector of a neighbour is a minimum**: with symmetric rows and one context for each
item, the update has nothing to fit exactly if no neighbour in the item's row has a vector. Where
one has, it returns a vector exactly if the error of all rows and the ridge are least at that vector
and nowhere else. -/
theorem newGamma_is_minimum {beta : Factors ℝ n} {rows : Table Key (Row ℝ)}
    {contexts : List (Key × List (Feature ℝ) × Option (Row ℝ))} (hs : SymmetricOn beta rows)
    (hc : Carries beta rows contexts) (gamma : Factors ℝ n)
    (betaBias gammaBias : Option (Table Key (Bias ℝ))) (ridge globalBias : ℝ) {i : Key}
    (hi : i ∈ beta) :
    let updated := newGamma i ((rows.get? i).getD []) beta betaBias gammaBias ridge globalBias
    (updated = .ok none ↔ ¬ HasNeighbor beta ((rows.get? i).getD [])) ∧
      ∀ v, updated = .ok (some v) ↔ HasNeighbor beta ((rows.get? i).getD []) ∧
        UniqueMinimum (gammaLoss beta gamma betaBias gammaBias ridge globalBias i contexts)
          Set.univ v := by
  intro updated
  by_cases hneighbor : HasNeighbor beta ((rows.get? i).getD [])
  · have hsolved : ∀ o, updated = .ok o ↔ _ := fun o => newGamma_eq_ok_iff hneighbor
    refine ⟨⟨fun hnone => ?_, fun hnot => absurd hneighbor hnot⟩, fun v => ?_⟩
    · obtain ⟨v, hv, -⟩ := (hsolved none).1 hnone
      cases hv
    · obtain ⟨c, hloss⟩ := hc.exists_gammaLoss_eq gamma ridge
      have hminimum := (hs.isQuadratic_column hi ridge c).uniqueMinimum_iff (v := v)
        ((isSymm_rowMatrix _ _).add (isSymm_one.smul ridge)) hloss
      rw [hsolved, hminimum, and_iff_right hneighbor]
      constructor
      · rintro ⟨v', hv', hsystem⟩
        obtain rfl := Option.some.inj hv'
        exact hsystem
      · exact fun hsystem => ⟨v, rfl, hsystem⟩
  · have hnone : updated = .ok none :=
      newGamma_of_not_hasNeighbor hneighbor betaBias gammaBias ridge globalBias
    refine ⟨iff_of_true hnone hneighbor, fun v => iff_of_false (fun hv => ?_) fun h =>
      hneighbor h.1⟩
    rw [hnone] at hv
    cases hv

/-- Two entangled items, one of which is **its own neighbour**: the update returns a vector. -/
theorem newGamma_is_minimum_entangled :
    let i := Key.text "a"
    let gamma : Factors ℝ 1 := Table.ofList [(i, #v[1]), (.text "b", #v[3])]
    let biases : Option (Table Key (Bias ℝ)) := some (Table.ofList [(i, .real 1)])
    ∃ v, newGamma i ((Entangled.rows.get? i).getD []) Entangled.beta biases none 1 (1 / 2)
        = .ok (some v) ∧
      UniqueMinimum (gammaLoss Entangled.beta gamma biases none 1 (1 / 2) i Entangled.contexts)
        Set.univ v := by
  intro i gamma biases
  let row := (Entangled.rows.get? i).getD []
  have hi : i ∈ Entangled.beta := Entangled.mem_beta.2 (.inl rfl)
  have hneighbor : HasNeighbor Entangled.beta row := ⟨_, List.mem_cons_self, hi⟩
  have hpos := (posDef_ridge (n := 1) one_pos).posSemidef_add
    (posSemidef_rowMatrix Entangled.beta row)
  obtain ⟨v, hsolved⟩ := exists_mulVec_eq hpos
    (rowTarget Entangled.beta row (restOf none biases (1 / 2) i))
  have hv := (newGamma_eq_ok_iff hneighbor).2 ⟨v, rfl, hpos, hsolved⟩
  have hminimum := newGamma_is_minimum Entangled.symmetricOn Entangled.carries gamma biases none 1
    (1 / 2) hi
  exact ⟨v, hv, ((hminimum.2 v).1 hv).2⟩

end CoEmbed
