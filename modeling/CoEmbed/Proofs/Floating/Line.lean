import CoEmbed.Proofs.Floating.Whole

/-!
# Floating Point Numbers on the Line

What is left of a floating point number when its fractional part is cut off is one as well. With
that, floating point numbers stand on the line like those of exact arithmetic.

* `truncate_eq` — the fractional part is cut off toward zero.
* `truncate_finite` — what is left is a number, and stands where it should.
* The instance of `Numeral.Valued` for floating point numbers.

## Size convention

A finite number may be far beyond all whole numbers of a word. What is left of it is then the number
itself.
-/

namespace CoEmbed

namespace Floating

open Float.Model UnpackedFloat

/-! ### Fractional parts -/

/-- The whole part of **a magnitude**. -/
theorem floor_magnitude (b : Binary) :
    ⌊(b.significand : ℝ) * 2 ^ b.exponent⌋ = ((b.quotient.1 / b.quotient.2 : ℕ) : ℤ) := by
  rw [Binary.quotient]
  by_cases h : 0 ≤ b.exponent
  · rw [if_pos h, Nat.div_one]
    have hvalue : (b.significand : ℝ) * 2 ^ b.exponent
        = ((b.significand * twoTo b.exponent.toNat : ℕ) : ℝ) := by
      obtain ⟨n, hn⟩ := Int.eq_ofNat_of_zero_le h
      rw [hn, zpow_natCast, Int.toNat_natCast, Nat.cast_mul]
      exact congrArg _ (Nat.cast_pow 2 n).symm
    rw [hvalue, Int.floor_natCast]
  · rw [if_neg h]
    have hvalue : (b.significand : ℝ) * 2 ^ b.exponent
        = (b.significand : ℝ) / ((twoTo (-b.exponent).toNat : ℕ) : ℝ) := by
      obtain ⟨n, hn⟩ := Int.eq_ofNat_of_zero_le (a := -b.exponent) (by omega)
      rw [hn, Int.toNat_natCast, ← neg_neg b.exponent, hn, zpow_neg, zpow_natCast, div_eq_mul_inv]
      exact congrArg (fun r : ℝ => _ * r⁻¹) (Nat.cast_pow 2 n).symm
    rw [hvalue, Int.floor_div_natCast, Int.floor_natCast]
    exact (Int.natCast_div _ _).symm

/-- What is left of a number is **what is left of its magnitude**, with its sign. -/
theorem towardZero_signed {r : ℝ} (h : 0 ≤ r) (negative : Bool) :
    towardZero (signed (signOf negative) r) = if negative then -⌊r⌋ else ⌊r⌋ := by
  cases negative with
  | false => exact if_pos h
  | true =>
      change towardZero (-r) = -⌊r⌋
      rw [towardZero, Int.ceil_neg]
      split
      · next hr =>
          obtain rfl : r = 0 := le_antisymm (neg_nonneg.1 hr) h
          rw [neg_zero, Int.floor_zero, neg_zero]
      · rfl

theorem truncate_eq (b : Binary) :
    b.truncate = towardZero (signed (signOf b.negative) (b.significand * 2 ^ b.exponent)) := by
  rw [towardZero_signed (by positivity), floor_magnitude]
  rfl

/-- What is left of a number in one form **needs no more digits** than the number. -/
theorem exists_natAbs_truncate {b : Binary} (h : b.significand < 2 ^ 53) (he : b.exponent ≤ 971) :
    ∃ c j : ℕ, b.truncate.natAbs = c * 2 ^ j ∧ c < 2 ^ 53 ∧ j ≤ 971 := by
  have habs : b.truncate.natAbs = b.quotient.1 / b.quotient.2 := by
    rw [Binary.truncate]
    dsimp only
    split
    · rw [Int.natAbs_neg, Int.natAbs_natCast]
    · rw [Int.natAbs_natCast]
  rw [habs, Binary.quotient]
  by_cases hexponent : 0 ≤ b.exponent
  · rw [if_pos hexponent]
    exact ⟨b.significand, b.exponent.toNat, Nat.div_one _, h, by omega⟩
  · rw [if_neg hexponent]
    exact ⟨_, 0, (mul_one _).symm, (Nat.div_le_self _ _).trans_lt h, by decide⟩

/-- What is left of a finite number **is a number**, and it stands where it should. -/
theorem truncate_finite {x : Float} (hx : Scalar.exceptional? x = none) :
    ∃ r : ℝ, standing x.toModel.unpack = r ∧ Numeral.truncate x = towardZero r ∧
      Scalar.exceptional? (Scalar.ofInt (towardZero r) : Float) = none ∧
      standing (Scalar.ofInt (towardZero r) : Float).toModel.unpack = (towardZero r : ℝ) := by
  have hreads := reads_ofFloat x
  have htruncate : Numeral.truncate x = (Binary.ofFloat x).truncate := rfl
  generalize Binary.ofFloat x = b at hreads htruncate
  have hstanding : standing x.toModel.unpack
      = (signed (signOf b.negative) (b.significand * 2 ^ b.exponent) : ℝ) ∧
        b.significand < 2 ^ 53 ∧ b.exponent ≤ 971 := by
    rw [exceptional?_eq] at hx
    generalize x.toModel.unpack = u at hreads hx
    cases hreads with
    | notANumber b => cases hx
    | infinity b s => cases s <;> cases hx
    | zero negative =>
        refine ⟨congrArg Real.toEReal ?_, Nat.two_pow_pos 53, (by decide : (-1074 : ℤ) ≤ 971)⟩
        rw [Nat.cast_zero, zero_mul]
        cases negative with
        | false => rfl
        | true => exact neg_zero.symm
    | finite negative h hc => exact ⟨rfl, hc.lt, hc.most⟩
  obtain ⟨hvalue, hlt, hmost⟩ := hstanding
  obtain ⟨c, j, habs, hc, hj⟩ := exists_natAbs_truncate hlt hmost
  rw [truncate_eq] at habs
  exact ⟨_, hvalue, htruncate.trans (truncate_eq b), standing_ofInt habs hc hj⟩

/-- Floating point numbers **stand on the line**. -/
noncomputable instance : Numeral.Valued Float where
  value x := standing x.toModel.unpack
  lt_iff {x y} := lt_iff x y
  truncate := truncate_finite
  positiveInfinity {x} h := by
    rw [exceptional?_eq] at h
    split at h
    · cases h
    · next hx => rw [hx, standing]
    · cases h
    · cases h
    · cases h
  negativeInfinity {x} h := by
    rw [exceptional?_eq] at h
    split at h
    · cases h
    · cases h
    · next hx => rw [hx, standing]
    · cases h
    · cases h
  ofInt := standing_of_isExact
  zero := ⟨by rw [exceptional?_eq]; rfl, rfl⟩
  one := by
    have hone : (1 : Float).toModel.unpack = .finite .positive (2 ^ 52) (-52) (by decide) := rfl
    obtain ⟨hfinite, hvalue⟩ := standing_of_unpack hone
    refine ⟨hfinite, hvalue.trans (congrArg Real.toEReal ?_)⟩
    rw [signed]
    norm_num

end Floating

end CoEmbed
