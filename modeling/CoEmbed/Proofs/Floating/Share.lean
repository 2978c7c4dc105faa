import CoEmbed.Proofs.Exact.Share
import CoEmbed.Proofs.Floating.Operations

/-!
# Shares in Floating Point

A share of counts is a share in floating point as well: it may be rounded, but neither past one nor
past zero.

* `at_half` — one half.
* `at_points` — what is won and half of what is tied, which are added without rounding.
* `exists_at_shortfall` — what a share falls short by.
* The instance of `Scalar.Shares` for floating point numbers.

## Size convention

A half takes one more digit than a count has, so counts of fewer than 52 digits are asked for.
-/

namespace CoEmbed

namespace Floating

theorem at_half : At Scalar.half ((1 : ℕ) * 2 ^ (-1 : ℤ)) := by
  have hfits := nearest_natCast_mul_zpow (n := 1) (by norm_num) (e := -1) (by norm_num)
  have hvalue : ((1 : ℕ) : ℝ) / (2 : ℕ) = (1 : ℕ) * 2 ^ (-1 : ℤ) := by norm_num
  have hdiv := (at_ofNat_of_lt (n := 1) (by norm_num)).div (at_ofNat_of_lt (n := 2) (by norm_num))
    (by norm_num)
  rw [hvalue, hfits] at hdiv
  exact hdiv (lt_trans (by norm_num) one_lt_limit)

/-- What is won and half of what is tied are added **without rounding**. -/
theorem at_points {won tied : ℕ} (h : 2 * won + tied < 2 ^ 53) :
    At (Scalar.ofNat won + Scalar.half * Scalar.ofNat tied)
      ((2 * won + tied : ℕ) * 2 ^ (-1 : ℤ)) := by
  have hlimit : ∀ {n : ℕ}, n < 2 ^ 53 → (n : ℝ) * 2 ^ (-1 : ℤ) < 2 ^ 1024 := fun hn =>
    (mul_le_of_le_one_right (Nat.cast_nonneg _) (by norm_num)).trans_lt (natCast_lt_limit hn)
  have hfits : ∀ {n : ℕ}, n < 2 ^ 53 → nearest (n * 2 ^ (-1 : ℤ)) = n * 2 ^ (-1 : ℤ) := fun hn =>
    nearest_natCast_mul_zpow hn (by norm_num)
  have htied : At (Scalar.half * Scalar.ofNat tied) (tied * 2 ^ (-1 : ℤ)) := by
    have hmul := at_half.mul (at_ofNat_of_lt (n := tied) (by omega))
    rw [Nat.cast_one, one_mul, mul_comm, hfits (by omega)] at hmul
    exact hmul (hlimit (by omega))
  have hvalue : (won : ℝ) + tied * 2 ^ (-1 : ℤ) = (2 * won + tied : ℕ) * 2 ^ (-1 : ℤ) := by
    push_cast
    ring
  have hadd := (at_ofNat_of_lt (n := won) (by omega)).add htied
  rw [hvalue, hfits h] at hadd
  exact hadd (hlimit h)

/-- What a share of counts falls short by **lies between zero and one**. -/
theorem exists_at_shortfall {won tied count : ℕ} (h : won + tied ≤ count) (hcount : 0 < count)
    (hsmall : count < 2 ^ 52) : ∃ r ≤ 1, At (Scalar.shortfall won tied count) r := by
  have hpos : (0 : ℝ) < count := Nat.cast_pos.2 hcount
  have hpoints : At (Scalar.ofNat won + Scalar.half * Scalar.ofNat tied) _ :=
    at_points (by omega)
  have hmost : ((2 * won + tied : ℕ) : ℝ) * 2 ^ (-1 : ℤ) ≤ count := by
    have hle : ((2 * won + tied : ℕ) : ℝ) ≤ 2 * count := by exact_mod_cast (by omega)
    rw [zpow_neg_one, ← div_eq_mul_inv, div_le_iff₀ two_pos]
    linarith
  have hshare : nearest ((2 * won + tied : ℕ) * 2 ^ (-1 : ℤ) / count) ≤ 1 :=
    nearest_le_one (div_nonneg hpoints.nonneg hpos.le) ((div_le_one hpos).2 hmost)
  have hdiv := hpoints.div (at_ofNat_of_lt (by omega)) hpos (hshare.trans_lt one_lt_limit)
  have hrest : nearest (1 - nearest ((2 * won + tied : ℕ) * 2 ^ (-1 : ℤ) / count)) ≤ 1 :=
    nearest_le_one (sub_nonneg.2 hshare) (sub_le_self 1 hdiv.nonneg)
  exact ⟨_, hrest, at_one.sub hdiv hshare (hrest.trans_lt one_lt_limit)⟩

/-- In floating point a share **is a share**. -/
instance : Scalar.Shares Float where
  Countable count := count < 2 ^ 52
  countable_of_lt := id
  eq_of_lt {x y} h := Bool.eq_false_iff.2 fun heq => by
    have hle : Scalar.le y x = true := by rw [Scalar.le, heq, Bool.or_true]
    exact ((lt_iff x y).1 h).2.2.not_ge ((le_iff y x).1 hle).2.2
  finite_shortfall h hcount hsmall := by
    obtain ⟨r, -, hat⟩ := exists_at_shortfall h hcount hsmall
    exact Option.isNone_iff_eq_none.2 hat.exceptional?_eq_none
  zero_le_shortfall h hcount hsmall := by
    obtain ⟨r, -, hat⟩ := exists_at_shortfall h hcount hsmall
    exact (at_zero.le_iff hat).2 hat.nonneg
  shortfall_le_one h hcount hsmall := by
    obtain ⟨r, hr, hat⟩ := exists_at_shortfall h hcount hsmall
    exact (hat.le_iff at_one).2 hr

end Floating

end CoEmbed
