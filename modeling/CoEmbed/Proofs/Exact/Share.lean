import CoEmbed.Proofs.Exact.Scalar
import CoEmbed.Ranking.Auc

/-!
# Shares of Counts

A comparison with some others is won, tied or lost, and what comes of it is how far the share of
those that are won, ties counting half, falls short of one.

* `Scalar.shortfall` — how far the share falls short.
* `Scalar.Shares` — arithmetics in which no share falls short by less than nothing, or by more than
  one.
* `auc_singleton` — the area under the curve of a single score.

## Size convention

Counts may be rounded when they become scalars, so nothing is asked of counts that are too long for
the significand of a scalar. In exact arithmetic there are none of these.
-/

namespace CoEmbed

namespace Scalar

variable {α : Type} [Scalar α]

/-- How far the share of some counts **falls short of one**, ties counting half. -/
def shortfall (won tied count : ℕ) : α := 1 - (ofNat won + half * ofNat tied) / ofNat count

/-- An arithmetic in which a share of counts **is a share**. -/
class Shares (α : Type) [Scalar α] where
  /-- Counts that become scalars without being rounded. -/
  Countable : ℕ → Prop
  /-- What is below a scalar does not equal it. -/
  eq_of_lt {x y : α} : lt x y = true → eq y x = false
  /-- Counts with so few digits are not rounded. -/
  countable_of_lt {count : ℕ} : count < 2 ^ 52 → Countable count
  /-- What a share falls short by is finite. -/
  finite_shortfall {won tied count : ℕ} : won + tied ≤ count → 0 < count → Countable count →
    finite (shortfall won tied count : α) = true
  /-- No share is more than everything. -/
  zero_le_shortfall {won tied count : ℕ} : won + tied ≤ count → 0 < count → Countable count →
    le 0 (shortfall won tied count : α) = true
  /-- No share is less than nothing. -/
  shortfall_le_one {won tied count : ℕ} : won + tied ≤ count → 0 < count → Countable count →
    le (shortfall won tied count : α) 1 = true

/-- In exact arithmetic a share falls short by **what it lacks**. -/
theorem shortfall_real (won tied count : ℕ) :
    (shortfall won tied count : ℝ) = 1 - (won + tied / 2) / count := by
  rw [shortfall, half, ratio]
  simp only [ofNat_real, Nat.cast_one, Nat.cast_ofNat]
  ring

theorem shortfall_real_mem {won tied count : ℕ} (h : won + tied ≤ count) (hcount : 0 < count) :
    (shortfall won tied count : ℝ) ∈ Set.Icc 0 1 := by
  have hle : (won : ℝ) + tied ≤ count := by exact_mod_cast h
  have hpos : (0 : ℝ) < count := by exact_mod_cast hcount
  have htied : (0 : ℝ) ≤ tied := Nat.cast_nonneg tied
  have hwon : (0 : ℝ) ≤ won := Nat.cast_nonneg won
  rw [shortfall_real]
  constructor
  · have hshare : ((won : ℝ) + tied / 2) / count ≤ 1 := (div_le_one hpos).2 (by linarith)
    linarith
  · have hshare : 0 ≤ ((won : ℝ) + tied / 2) / count := by positivity
    linarith

/-- In exact arithmetic a share **is a share**. -/
instance : Shares ℝ where
  Countable _ := True
  countable_of_lt _ := trivial
  eq_of_lt h := Bool.eq_false_iff.2 fun heq => (lt_real.1 h).ne' (eq_real.1 heq)
  finite_shortfall _ _ _ := rfl
  zero_le_shortfall h hcount _ := le_real.2 (shortfall_real_mem h hcount).1
  shortfall_le_one h hcount _ := le_real.2 (shortfall_real_mem h hcount).2

end Scalar

variable {α : Type} [Scalar α]

/-- The area under the curve of **a single score** counts the scores that are below it, and those
that equal it. -/
theorem auc_singleton (p : α) {others : List α} (h : others ≠ []) :
    auc [p] others = some ((Scalar.ofNat (others.countP fun n => Scalar.lt n p)
      + Scalar.half * Scalar.ofNat (others.countP fun n => Scalar.eq p n))
      / Scalar.ofNat others.length) := by
  have hempty : ([p].isEmpty || others.isEmpty) = false := by
    rw [Bool.or_eq_false_iff]
    exact ⟨rfl, List.isEmpty_eq_false_iff.2 h⟩
  rw [auc, hempty, wins, ties, List.flatMap_singleton, List.flatMap_singleton,
    List.countP_eq_length_filter, List.countP_eq_length_filter, List.length_singleton, one_mul]
  rfl

end CoEmbed
