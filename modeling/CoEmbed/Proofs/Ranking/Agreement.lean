import CoEmbed.Proofs.Ranking.Range

/-!
# Agreement of the Metrics

Each metric looks for held-out keys in its own way: among different keys, key by key, or rank by
rank. All of them find one or none of them does, and what precision and recall are shares of is one
number.

* `nonempty_hitRanks_iff` — ranks at which a held-out key is found.
* `precisionAt_mul`, `recallAt_mul` — what precision and recall are shares of.
* `precisionAt_pos_iff`, `recallAt_pos_iff`, `ndcgAt_pos_iff` — metrics above zero.
* `recallAt_mono` — recall at a later cut-off.
* `Floating.precisionAt_pos_iff`, `Floating.recallAt_pos_iff`, `Floating.recallAt_mono` — the same
  after rounding.
* `metrics_agree` — the four metrics at one cut-off, and two of them at a later one.
* `precisionAt_rounded` — what rounding does to that.

## Growth convention

A later cut-off takes more ranks for its share, so precision may fall; and it may let a ranking be
better than the one at hand, so the relative gain may fall as well.
-/

namespace CoEmbed

variable {recommended heldOut : List Key}

/-! ### Ways to look for a held-out key -/

/-- There are ranks at which a ranking hits **where a held-out key is found**. -/
theorem nonempty_hitRanks_iff {n : ℕ} :
    (hitRanks recommended heldOut n).Nonempty ↔ Found recommended heldOut n := by
  rw [← Finset.card_pos, card_hitRanks, List.length_pos_iff_exists_mem, Found, upTo_natCast]
  simp only [List.mem_filter, decide_eq_true_eq]

/-! ### Shares of hits -/

/-- Precision is the share of the cut-off that **the hits** make up. -/
theorem precisionAt_mul {k : ℤ} (hk : k ≠ 0) :
    (precisionAt recommended heldOut k : ℝ) * k = hits recommended heldOut k := by
  rw [precisionAt]
  split
  · next hempty =>
      rw [hits, List.isEmpty_iff.1 hempty, zero_mul]
      exact Nat.cast_zero.symm
  · rw [Scalar.quotient_real, Int.cast_natCast]
    exact div_mul_cancel₀ _ (Int.cast_ne_zero.2 hk)

/-- Recall is the share of the held-out keys that **the hits** make up. -/
theorem recallAt_mul (recommended heldOut : List Key) (k : ℤ) :
    (recallAt recommended heldOut k : ℝ) * heldOut.length = hits recommended heldOut k := by
  rw [recallAt]
  split
  · next hempty =>
      have hnone : hits recommended heldOut k = 0 := by
        have hle : hits recommended heldOut k ≤ heldOut.length := hits_le_length
        rw [List.isEmpty_iff.1 hempty] at hle ⊢
        exact Nat.le_zero.1 hle
      rw [hnone, zero_mul, Nat.cast_zero]
  · next hheld =>
      have hlength : heldOut.length ≠ 0 := fun h => hheld (List.isEmpty_iff_length_eq_zero.2 h)
      rw [Scalar.quotient_real, Int.cast_natCast, Int.cast_natCast]
      exact div_mul_cancel₀ _ (Nat.cast_ne_zero.2 hlength)

/-- Precision is above zero **where a held-out key is found**. -/
theorem precisionAt_pos_iff {k : ℤ} (hk : 0 < k) :
    0 < (precisionAt recommended heldOut k : ℝ) ↔ Found recommended heldOut k := by
  rw [← mul_pos_iff_of_pos_right (Int.cast_pos.2 hk : (0 : ℝ) < k), precisionAt_mul hk.ne',
    Nat.cast_pos, hits_pos_iff]

/-- Recall is above zero **where a held-out key is found**. -/
theorem recallAt_pos_iff {k : ℤ} :
    0 < (recallAt recommended heldOut k : ℝ) ↔ Found recommended heldOut k := by
  rw [← hits_pos_iff, ← Nat.cast_pos (α := ℝ), ← recallAt_mul]
  constructor
  · intro hpos
    have hheld : heldOut ≠ [] := by
      rintro rfl
      exact hpos.ne rfl
    exact mul_pos hpos (Nat.cast_pos.2 (List.length_pos_iff.2 hheld))
  · exact fun hpos => pos_of_mul_pos_left hpos (Nat.cast_nonneg _)

/-- The relative gain is above zero **where a held-out key is found**. -/
theorem ndcgAt_pos_iff {n : ℕ} (hn : 0 < n) :
    0 < (ndcgAt recommended heldOut n : ℝ) ↔ Found recommended heldOut n := by
  rw [ndcgAt_eq]
  constructor
  · intro hpos
    rw [← nonempty_hitRanks_iff, Finset.nonempty_iff_ne_empty]
    intro hempty
    rw [hempty, Finset.sum_empty, zero_div] at hpos
    exact hpos.false
  · intro hfound
    have hranks := nonempty_hitRanks_iff.2 hfound
    refine div_pos (Finset.sum_pos (fun rank _ => discount_pos rank) hranks) ?_
    exact sum_discount_pos (min_distinct_pos hfound.ne_nil hn)

/-! ### Later cut-offs -/

section

variable {k l : ℤ}

theorem recallAt_mono (hk : 0 ≤ k) (hkl : k ≤ l) :
    (recallAt recommended heldOut k : ℝ) ≤ recallAt recommended heldOut l := by
  rw [recallAt, recallAt]
  split
  · exact le_rfl
  · simp only [Scalar.quotient_real, Int.cast_natCast]
    exact div_le_div_of_nonneg_right (Nat.cast_le.2 (hits_mono hk hkl)) (Nat.cast_nonneg _)

end

/-! ### Floating point -/

namespace Floating

variable {k l : ℤ}

/-- Precision is above zero where a held-out key is found, **unless the cut-off is far too
large**. -/
theorem precisionAt_pos_iff (hk : 0 < k) (hsmall : k < 2 ^ 1075) :
    Scalar.lt 0 (precisionAt recommended heldOut k : Float) = true
      ↔ Found recommended heldOut k := by
  obtain ⟨n, rfl⟩ := Int.eq_ofNat_of_zero_le hk.le
  rw [at_zero.lt_iff (at_precisionAt recommended heldOut (Int.natCast_pos.1 hk)), ← hits_pos_iff]
  exact nearest_div_pos_iff (Int.ofNat_le.1 (hits_le_cutoff hk.le)) (by exact_mod_cast hsmall)

/-- Recall is above zero where a held-out key is found, **unless far too many are held out**. -/
theorem recallAt_pos_iff (hsmall : heldOut.length < 2 ^ 1075) :
    Scalar.lt 0 (recallAt recommended heldOut k : Float) = true
      ↔ Found recommended heldOut k := by
  rw [at_zero.lt_iff (at_recallAt recommended heldOut k), ← hits_pos_iff]
  exact nearest_div_pos_iff hits_le_length hsmall

theorem recallAt_mono (hk : 0 ≤ k) (hkl : k ≤ l) :
    Scalar.le (recallAt recommended heldOut k : Float) (recallAt recommended heldOut l) = true := by
  refine ((at_recallAt recommended heldOut k).le_iff (at_recallAt recommended heldOut l)).2 ?_
  refine nearest_mono (div_nonneg (Nat.cast_nonneg _) (Nat.cast_nonneg _)) ?_
  exact div_le_div_of_nonneg_right (Nat.cast_le.2 (hits_mono hk hkl)) (Nat.cast_nonneg _)

end Floating

/-! ### Agreement -/

open Floating (At Log2Sound)

/-- **The four metrics agree on whether anything is found**, and precision and recall on how much:
the one as a share of the cut-off, the other as a share of the held-out keys. This is so for every
ranking and all held-out keys, repeated or missing ones included, and every cut-off from one on.
Hits and recall do not fall when the cut-off grows.

In floating point the shares are rounded, so that precision and recall are shares of the hits up to
half a unit of the last place, and a share of too many is lost. Nothing else changes. -/
theorem metrics_agree (recommended heldOut : List Key) {k : ℤ} (hk : 1 ≤ k) :
    [hitAt recommended heldOut k = 1, 0 < (precisionAt recommended heldOut k : ℝ),
      0 < (recallAt recommended heldOut k : ℝ), 0 < (ndcgAt recommended heldOut k : ℝ)].TFAE ∧
    (precisionAt recommended heldOut k : ℝ) * k
      = recallAt recommended heldOut k * heldOut.length ∧
    (∀ l, k ≤ l → hitAt recommended heldOut k ≤ hitAt recommended heldOut l ∧
      (recallAt recommended heldOut k : ℝ) ≤ recallAt recommended heldOut l ∧
      Scalar.le (recallAt recommended heldOut k : Float) (recallAt recommended heldOut l) = true) ∧
    (k < 2 ^ 1075 → (hitAt recommended heldOut k = 1
      ↔ Scalar.lt 0 (precisionAt recommended heldOut k : Float) = true)) ∧
    (heldOut.length < 2 ^ 1075 → (hitAt recommended heldOut k = 1
      ↔ Scalar.lt 0 (recallAt recommended heldOut k : Float) = true)) ∧
    (∀ (log2 : Float → Float) (m : ℕ), Log2Sound log2 (m + 1) → m + 1 < 2 ^ 53 →
      recommended.length ≤ m → heldOut.length ≤ m → (hitAt recommended heldOut k = 1
        ↔ Scalar.lt 0 (@ndcgAt Float (Scalar.floating log2) recommended heldOut k) = true)) ∧
    ∃ p r : ℝ, At (precisionAt recommended heldOut k) p ∧ At (recallAt recommended heldOut k) r ∧
      |p * k - hits recommended heldOut k|
        ≤ max ((hits recommended heldOut k : ℝ) / 2 ^ 53) ((k : ℝ) / 2 ^ 1075) ∧
      |r * heldOut.length - hits recommended heldOut k|
        ≤ max ((hits recommended heldOut k : ℝ) / 2 ^ 53) ((heldOut.length : ℝ) / 2 ^ 1075) := by
  have hpos : 0 < k := hk
  refine ⟨?_, ?_, fun l hkl => ⟨hitAt_mono hpos.le hkl, recallAt_mono hpos.le hkl,
      Floating.recallAt_mono hpos.le hkl⟩,
    fun hsmall => hitAt_eq_one_iff.trans (Floating.precisionAt_pos_iff hpos hsmall).symm,
    fun hsmall => hitAt_eq_one_iff.trans (Floating.recallAt_pos_iff hsmall).symm,
    fun log2 m hlog hm hrecommended hheld => ?_, ?_⟩
  all_goals obtain ⟨n, rfl⟩ := Int.eq_ofNat_of_zero_le hpos.le
  · tfae_have 1 ↔ 2 := hitAt_eq_one_iff.trans (precisionAt_pos_iff hpos).symm
    tfae_have 1 ↔ 3 := hitAt_eq_one_iff.trans recallAt_pos_iff.symm
    tfae_have 1 ↔ 4 := hitAt_eq_one_iff.trans (ndcgAt_pos_iff (Int.natCast_pos.1 hpos)).symm
    tfae_finish
  · rw [precisionAt_mul hpos.ne', recallAt_mul]
  · obtain ⟨r, -, hat, hfound, -⟩ :=
      Floating.at_ndcgAt hlog hm hrecommended hheld (Int.natCast_pos.1 hpos)
    exact hitAt_eq_one_iff.trans (hfound.symm.trans (Floating.at_zero.lt_iff hat).symm)
  · exact ⟨_, _, Floating.at_precisionAt recommended heldOut (Int.natCast_pos.1 hpos),
      Floating.at_recallAt recommended heldOut n,
      Floating.abs_nearest_div_mul_sub_le (Int.ofNat_le.1 (hits_le_cutoff hpos.le)),
      Floating.abs_nearest_div_mul_sub_le hits_le_length⟩

/-- A key is recommended twice and held out twice, beside one that is not recommended. It is found
at the second of three ranks, and no more is found at the third. -/
theorem metrics_agree_repeated :
    let ranking : List Key := [.text "a", .text "b", .text "b"]
    let heldOut : List Key := [.text "b", .text "b", .text "c"]
    (1 : ℤ) ≤ 2 ∧ hitAt ranking heldOut 2 = 1 ∧ 0 < (precisionAt ranking heldOut 2 : ℝ) ∧
      0 < (recallAt ranking heldOut 2 : ℝ) ∧ 0 < (ndcgAt ranking heldOut 2 : ℝ) ∧
      (precisionAt ranking heldOut 2 : ℝ) * 2 = recallAt ranking heldOut 2 * 3 ∧
      (2 : ℤ) ≤ 3 ∧ (recallAt ranking heldOut 2 : ℝ) ≤ recallAt ranking heldOut 3 ∧
      Scalar.lt 0 (precisionAt ranking heldOut 2 : Float) = true ∧
      Scalar.lt 0 (recallAt ranking heldOut 2 : Float) = true ∧
      Log2Sound Floating.firstLogarithms 4 ∧ Scalar.lt 0
        (@ndcgAt Float (Scalar.floating Floating.firstLogarithms) ranking heldOut 2) = true := by
  intro ranking heldOut
  obtain ⟨hagree, hshare, hlater, hprecision, hrecall, hndcg, -⟩ :=
    metrics_agree ranking heldOut (k := 2) (by decide)
  have hhit : hitAt ranking heldOut 2 = 1 := by decide
  have hshare' : (precisionAt ranking heldOut 2 : ℝ) * 2 = recallAt ranking heldOut 2 * 3 := by
    exact_mod_cast hshare
  have hsound : Log2Sound Floating.firstLogarithms 4 :=
    ⟨by decide +kernel, by decide +kernel, by decide +kernel⟩
  have hcutoff : (2 : ℤ) < 2 ^ 1075 :=
    calc (2 : ℤ) = 2 ^ 1 := (pow_one 2).symm
      _ < 2 ^ 1075 := pow_lt_pow_right₀ one_lt_two (by norm_num)
  have hlength : heldOut.length < 2 ^ 1075 :=
    calc heldOut.length < 2 ^ 2 := by decide
      _ < 2 ^ 1075 := pow_lt_pow_right₀ one_lt_two (by norm_num)
  exact ⟨by decide, hhit, (hagree.out 0 1).1 hhit, (hagree.out 0 2).1 hhit,
    (hagree.out 0 3).1 hhit, hshare', by decide, (hlater 3 (by decide)).2.1,
    (hprecision hcutoff).1 hhit, (hrecall hlength).1 hhit, hsound,
    (hndcg _ 3 hsound (by norm_num) le_rfl le_rfl).1 hhit⟩

/-- Rounded shares are **no longer shares of one number**: one hit at a cut-off of 49 is less than
one of one. And one hit at a cut-off of more than three hundred digits **is lost**. -/
theorem precisionAt_rounded :
    let ranking : List Key := [.text "a"]
    Scalar.eq ((precisionAt ranking ranking 49 : Float) * Scalar.ofNat 49)
      (recallAt ranking ranking 49 * Scalar.ofNat ranking.length) = false ∧
    hitAt ranking ranking (10 ^ 400) = 1 ∧
      Scalar.lt 0 (precisionAt ranking ranking (10 ^ 400) : Float) = false := by
  decide +kernel

end CoEmbed
