import CoEmbed.Proofs.Shuffled
import CoEmbed.Proofs.Strangers

/-!
# The Algebra of Gram Matrices

The Gram matrix of a list of keys is put together from the vectors of those keys that have one. As a
bilinear form it adds up, over these vectors, the products of the scores that they give its two
arguments, and nothing else about a list of keys enters a system.

* `Factors.dotProduct_gramOn_mulVec` — the Gram matrix of a list of keys as a bilinear form.
* `Factors.gramOn_append`, `Factors.gramOn_of_among_eq`, `Factors.gramOn_keys` — lists that are
  joined, lists with the same known keys, and the list of all keys.
* `Factors.toMatrix_background_add_of_nodup` — listed vectors and others in one system.
* `Factors.gram_laws` — the laws together.

## Multiplicity convention

A key that is listed twice counts twice, in the form and in the matrix. A system whose list repeats
a key therefore does not give that key the confidence of an observed pair, and the split into listed
vectors and others is stated for lists without repeated keys.
-/

open Matrix

namespace CoEmbed

namespace Factors

variable {n : ℕ} (W : Factors ℝ n)

/-- The Gram matrix of a list of keys as a **bilinear form**. -/
theorem dotProduct_gramOn_mulVec (ks : List Key) (c : ℝ) (x y : Fin n → ℝ) :
    x ⬝ᵥ (W.gramOn ks c).toMatrix *ᵥ y
      = c * ((W.among ks).map fun k => (W.vectorAt k ⬝ᵥ x) * (W.vectorAt k ⬝ᵥ y)).sum := by
  rw [← W.gramOn_among, toMatrix_gramOn, smul_mulVec, dotProduct_smul, smul_eq_mul,
    dotProduct_sum_outer_mulVec]

/-- Lists that are **joined** have the sum of their Gram matrices. -/
theorem gramOn_append (ks ls : List Key) (c : ℝ) :
    W.gramOn (ks ++ ls) c = Mat.add (W.gramOn ks c) (W.gramOn ls c) := by
  refine Mat.toMatrix_injective ?_
  rw [Mat.toMatrix_add, toMatrix_gramOn, toMatrix_gramOn, toMatrix_gramOn, List.map_append,
    List.sum_append, smul_add]

/-- A Gram matrix depends on the **known keys** of its list alone. -/
theorem gramOn_of_among_eq {ks ls : List Key} (h : W.among ls = W.among ks) (c : ℝ) :
    W.gramOn ls c = W.gramOn ks c := by
  rw [← gramOn_among, h, gramOn_among]

/-- The list of **all keys** has the Gram matrix of the table. -/
theorem gramOn_keys (c : ℝ) : W.gramOn W.keys c = W.gram c := by
  have hall : W.present W.keys = W.values := Table.filterMap_get?_keys W
  rw [gramOn, hall, gram]
  cases W.values with
  | nil =>
      -- here the zero matrix stands for `c` times a sum without terms
      refine Mat.toMatrix_injective ?_
      rw [Mat.toMatrix_zero, Mat.toMatrix_smul, Mat.toMatrix_gram, List.map_nil, List.sum_nil,
        smul_zero]
  | cons v vs => rfl

/-- Background and correction give **each listed vector** the one confidence and **each other
vector** the other one. -/
theorem toMatrix_background_add_of_nodup {ks : List Key} (hks : ks.Nodup) (c₀ c₁ ridge : ℝ) :
    (Mat.add (W.background c₀ ridge) (W.gramOn ks (c₁ - c₀))).toMatrix
      = c₁ • ∑ k ∈ W.domain with k ∈ ks, outer (W.vectorAt k)
        + c₀ • ∑ k ∈ W.domain with k ∉ ks, outer (W.vectorAt k)
        + ridge • (1 : Matrix (Fin n) (Fin n) ℝ) := by
  rw [Mat.toMatrix_add, toMatrix_background_add, observedMatrix,
    ← Finset.sum_filter_add_sum_filter_not W.domain (· ∈ ks), Finset.smul_sum, Finset.smul_sum]
  congr 2
  · refine Finset.sum_congr rfl fun k hk => ?_
    rw [List.count_eq_one_of_mem hks (Finset.mem_filter.1 hk).2, Nat.cast_one, one_mul,
      add_sub_cancel]
  · refine Finset.sum_congr rfl fun k hk => ?_
    rw [List.count_eq_zero_of_not_mem (Finset.mem_filter.1 hk).2, Nat.cast_zero, zero_mul,
      add_zero]

/-- **The algebra of Gram matrices.** As a bilinear form the Gram matrix of a list of keys adds up
products of scores, one for each mention of a key that has a vector. It is symmetric, and positive
semidefinite unless its weight is negative. Lists that are joined add up; the order of a list does
not matter, and neither do the keys without a vector that stand in it; all keys together have the
Gram matrix of the table. Where no key is repeated, background and correction count the listed
vectors with one confidence and all others with the other, and add the ridge. -/
theorem gram_laws :
    (∀ (ks : List Key) (c : ℝ),
      (∀ x y : Fin n → ℝ, x ⬝ᵥ (W.gramOn ks c).toMatrix *ᵥ y
        = c * ((W.among ks).map fun k => (W.vectorAt k ⬝ᵥ x) * (W.vectorAt k ⬝ᵥ y)).sum) ∧
      (W.gramOn ks c).toMatrix.IsSymm ∧
      (0 ≤ c → (W.gramOn ks c).toMatrix.PosSemidef) ∧
      (∀ ls, W.gramOn (ks ++ ls) c = Mat.add (W.gramOn ks c) (W.gramOn ls c)) ∧
      (∀ ls, ls.Perm ks → W.gramOn ls c = W.gramOn ks c) ∧
      ∀ ls, W.among ls = W.among ks → W.gramOn ls c = W.gramOn ks c) ∧
    (∀ c, W.gramOn W.keys c = W.gram c) ∧
    ∀ ks : List Key, ks.Nodup → ∀ c₀ c₁ ridge : ℝ,
      (Mat.add (W.background c₀ ridge) (W.gramOn ks (c₁ - c₀))).toMatrix
        = c₁ • ∑ k ∈ W.domain with k ∈ ks, outer (W.vectorAt k)
          + c₀ • ∑ k ∈ W.domain with k ∉ ks, outer (W.vectorAt k)
          + ridge • (1 : Matrix (Fin n) (Fin n) ℝ) := by
  refine ⟨fun ks c => ⟨W.dotProduct_gramOn_mulVec ks c, ?_, fun hc => ?_, fun ls =>
    W.gramOn_append ks ls c, fun ls h => W.gramOn_perm h c, fun ls h => W.gramOn_of_among_eq h c⟩,
    W.gramOn_keys, fun ks hks => W.toMatrix_background_add_of_nodup hks⟩
  · rw [toMatrix_gramOn]
    exact (isSymm_sum_outer _ ks).smul c
  · rw [toMatrix_gramOn]
    exact (posSemidef_sum_outer _ ks).smul hc

/-- Two vectors. A list that repeats a key and holds a stranger is turned round and rid of the
stranger; another list observes one of the vectors. -/
theorem gram_laws_repeated :
    let W : Factors ℝ 2 := Table.ofList
      [(.text "a", Vec.ofCoords ![1, 2]), (.text "b", Vec.ofCoords ![3, 5])]
    let ks : List Key := [.text "a", .text "ghost", .text "a"]
    let turned : List Key := [.text "a", .text "a", .text "ghost"]
    let known : List Key := [.text "a", .text "a"]
    let observed : List Key := [.text "ghost", .text "b"]
    ![1, 0] ⬝ᵥ (W.gramOn ks 3).toMatrix *ᵥ ![0, 1] = 12 ∧
      (0 : ℝ) ≤ 3 ∧ (W.gramOn ks 3).toMatrix.PosSemidef ∧
      turned.Perm ks ∧ W.gramOn turned 3 = W.gramOn ks 3 ∧
      W.among known = W.among ks ∧ W.gramOn known 3 = W.gramOn ks 3 ∧
      observed.Nodup ∧
      (Mat.add (W.background 2 1) (W.gramOn observed (7 - 2))).toMatrix
        = (7 : ℝ) • outer ![3, 5] + (2 : ℝ) • outer ![1, 2] + (1 : ℝ) • 1 := by
  intro W ks turned known observed
  have ha : W.vectorAt (.text "a") = ![1, 2] :=
    (vectorAt_of_get? rfl).trans (Vec.coords_ofCoords _)
  have hb : W.vectorAt (.text "b") = ![3, 5] :=
    (vectorAt_of_get? rfl).trans (Vec.coords_ofCoords _)
  have hknown : W.among ks = known := rfl
  have hperm : turned.Perm ks := by decide
  have hnodup : observed.Nodup := by decide
  have hlisted : W.domain.filter (· ∈ observed) = {.text "b"} := by decide
  have hothers : W.domain.filter (· ∉ observed) = {.text "a"} := by decide
  have hnonneg : (0 : ℝ) ≤ 3 := by norm_num
  obtain ⟨hlist, -, hsystem⟩ := W.gram_laws
  obtain ⟨hform, -, hpos, -, horder, hamong⟩ := hlist ks 3
  refine ⟨?_, hnonneg, hpos hnonneg, hperm, horder turned hperm, rfl, hamong known rfl, hnodup, ?_⟩
  · rw [hform, hknown, List.map_cons, List.map_singleton, List.sum_pair, ha]
    norm_num
  · rw [hsystem observed hnodup, hlisted, hothers, Finset.sum_singleton, Finset.sum_singleton, ha,
      hb]

end Factors

end CoEmbed
