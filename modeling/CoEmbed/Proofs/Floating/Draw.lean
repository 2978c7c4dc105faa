import CoEmbed.Proofs.Exact.Draw
import CoEmbed.Proofs.Floating.Operations

/-!
# Draws in Floating Point

The upper part of a word has as many digits as a significand, so the draw that it stands for is a
floating point number as it is.

* `exists_at_unit` — where a draw stands.
* The instance of `Scalar.Draws` for floating point numbers.
-/

namespace CoEmbed

namespace Floating

/-- A draw **stands in the unit interval**, and not at its end. -/
theorem exists_at_unit [Machine] (s : Source) (k : ℕ) : ∃ r < 1, At (s.unit k) r := by
  have hupper := s.upper_lt k
  have hunit : (s.unit k : Float)
      = Scalar.ofNat (s.peek k >>> 11).toNat / Scalar.ofNat (2 ^ 53) := rfl
  rw [hunit]
  generalize (s.peek k >>> 11).toNat = n at hupper
  have hdivisor : At (Scalar.ofNat (2 ^ 53)) ((2 ^ 53 : ℕ) : ℝ) := by
    have hfits := nearest_natCast_mul (n := 1) (by norm_num) 53
    rw [Nat.cast_one, one_mul, ← Nat.cast_ofNat, ← Nat.cast_pow] at hfits
    have hat := at_ofNat (n := 2 ^ 53) (hfits.trans_lt ?_)
    · rwa [hfits] at hat
    · rw [Nat.cast_pow, Nat.cast_ofNat]
      exact pow_lt_pow_right₀ one_lt_two (by norm_num)
  have hvalue : (n : ℝ) / (2 ^ 53 : ℕ) = n * 2 ^ (-53 : ℤ) := by
    rw [div_eq_mul_inv, Nat.cast_pow, Nat.cast_ofNat, ← zpow_natCast, ← zpow_neg]
    rfl
  have hlt : (n : ℝ) / (2 ^ 53 : ℕ) < 1 := by
    rw [div_lt_one (by positivity)]
    exact_mod_cast hupper
  have hdiv := (at_ofNat_of_lt hupper).div hdivisor (by positivity)
  rw [hvalue, nearest_natCast_mul_zpow hupper (by norm_num), ← hvalue] at hdiv
  exact ⟨_, hlt, hdiv (hlt.trans one_lt_limit)⟩

/-- In floating point draws **lie in the unit interval**. -/
instance : Scalar.Draws Float where
  unit_lt_zero s k := by
    obtain ⟨r, -, hat⟩ := exists_at_unit s k
    exact Bool.eq_false_iff.2 fun h => ((hat.lt_iff at_zero).1 h).not_ge hat.nonneg
  unit_lt_one s k := by
    obtain ⟨r, hr, hat⟩ := exists_at_unit s k
    exact (hat.lt_iff at_one).2 hr

end Floating

end CoEmbed
