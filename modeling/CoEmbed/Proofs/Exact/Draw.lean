import CoEmbed.Machine
import CoEmbed.Proofs.Exact.Scalar

/-!
# Draws from the Unit Interval

A draw from the unit interval is the upper part of a word, as a share of all such parts. It lies in
the interval, and is never at its end.

* `Source.upper_lt` — the upper part of a word.
* `Scalar.Draws` — arithmetics in which draws lie in the unit interval.
-/

namespace CoEmbed

/-- The **upper part of a word** has 53 binary digits. -/
theorem Source.upper_lt [Machine] (s : Source) (k : ℕ) : (s.peek k >>> 11).toNat < 2 ^ 53 := by
  have hword : (s.peek k).toNat < 2 ^ 64 := (s.peek k).toNat_lt
  rw [UInt64.toNat_shiftRight, Nat.shiftRight_eq_div_pow]
  change (s.peek k).toNat / 2 ^ 11 < 2 ^ 53
  omega

/-- An arithmetic in which draws from the unit interval **lie in it**, its end apart. -/
class Scalar.Draws (α : Type) [Scalar α] : Prop where
  /-- No draw is below zero. -/
  unit_lt_zero [Machine] (s : Source) (k : ℕ) : lt (s.unit k : α) 0 = false
  /-- Every draw is below one. -/
  unit_lt_one [Machine] (s : Source) (k : ℕ) : lt (s.unit k : α) 1 = true

/-- In exact arithmetic a draw is **the share that it stands for**. -/
instance : Scalar.Draws ℝ where
  unit_lt_zero s k := Scalar.lt_real_eq_false.2 (div_nonneg (Nat.cast_nonneg _) (Nat.cast_nonneg _))
  unit_lt_one s k := by
    have hupper : ((s.peek k >>> 11).toNat : ℝ) < ((Nat.pow 2 53 : ℕ) : ℝ) :=
      Nat.cast_lt.2 (s.upper_lt k)
    exact Scalar.lt_real.2 ((div_lt_one (Nat.cast_pos.2 (Nat.two_pow_pos 53))).2 hupper)

end CoEmbed
