import CoEmbed.Proofs.Exact.Setting

/-!
# Numerals in Order

What the tests of this library take for granted about the order of numbers, stated once for every
type of them. Each law speaks of comparisons that hold, so none of them asks that two numbers can
be compared at all.

* `Numeral.Ordered` — the laws.
* `Setting.pos_of_atMost`, `Setting.one_le_count`, `Setting.one_le_whole` — bounds that are tested
  on a number, and hold of the whole number that is made of it.

## Rounding convention

A whole number may be rounded when it becomes a scalar, but not past zero, and a scalar that is not
below one still is not when its fractional part is cut off.
-/

namespace CoEmbed

/-- The **laws of order** that tests rely on. The reals obey them, and so do floating point numbers,
those that are not a number included. -/
class Numeral.Ordered (α : Type) [Numeral α] : Prop where
  /-- What is below a number is below every other that is not less. -/
  lt_of_lt_of_le {x y z : α} : Scalar.lt x y = true → Scalar.le y z = true → Scalar.lt x z = true
  /-- What is not above a number is below whatever the number is below. -/
  lt_of_le_of_lt {x y z : α} : Scalar.le x y = true → Scalar.lt y z = true → Scalar.lt x z = true
  /-- Zero is below one. -/
  zero_lt_one : Scalar.lt (0 : α) 1 = true
  /-- A whole number that is not positive does not become so. -/
  ofInt_le_zero {k : ℤ} : k ≤ 0 → Scalar.le (Scalar.ofInt k : α) 0 = true
  /-- A scalar that is not below one has a whole part. -/
  one_le_truncate {x : α} : Scalar.exceptional? x = none → Scalar.lt x 1 = false →
    1 ≤ Numeral.truncate x

/-- In exact arithmetic these are laws of **the order of the reals**. -/
instance [Spelling] : Numeral.Ordered ℝ where
  lt_of_lt_of_le h h' := Scalar.lt_real.2 ((Scalar.lt_real.1 h).trans_le (Scalar.le_real.1 h'))
  lt_of_le_of_lt h h' := Scalar.lt_real.2 ((Scalar.le_real.1 h).trans_lt (Scalar.lt_real.1 h'))
  zero_lt_one := Scalar.lt_real.2 zero_lt_one
  ofInt_le_zero h := Scalar.le_real.2 (by rw [Scalar.ofInt_real]; exact_mod_cast h)
  one_le_truncate {x} _ h := by
    have hx : (1 : ℝ) ≤ x := Scalar.lt_real_eq_false.1 h
    have hcut : Numeral.truncate x = ⌊x⌋ := if_pos (zero_le_one.trans hx)
    rw [hcut]
    exact Int.le_floor.2 (by exact_mod_cast hx)

namespace Setting

variable {α : Type} [Numeral α] [Numeral.Ordered α]

/-- A whole number that is **not at most zero** is positive. -/
theorem pos_of_atMost {k : ℤ} (h : (integer (α := α) k).atMost 0 = .ok false) : 0 < k := by
  by_contra hk
  have hle : Scalar.le (Scalar.ofInt k : α) 0 = false := Except.ok.inj h
  rw [Numeral.Ordered.ofInt_le_zero (not_lt.1 hk)] at hle
  cases hle

/-- A whole number that is **not below one** is at least one. -/
theorem one_le_integer {k : ℤ} (h : (integer (α := α) k).below 1 = .ok false) : 1 ≤ k := by
  by_contra hk
  have hlt : Scalar.lt (Scalar.ofInt k : α) 1 = false := Except.ok.inj h
  rw [Numeral.Ordered.lt_of_le_of_lt (Numeral.Ordered.ofInt_le_zero (by omega))
    Numeral.Ordered.zero_lt_one] at hlt
  cases hlt

theorem one_le_flag {b : Bool} (h : (flag (α := α) b).below 1 = .ok false) :
    (1 : ℤ) ≤ if b then 1 else 0 := by
  cases b with
  | true => exact le_rfl
  | false =>
      have hlt : Scalar.lt (0 : α) 1 = false := Except.ok.inj h
      rw [Numeral.Ordered.zero_lt_one] at hlt
      cases hlt

/-- A number that is **not below one** counts at least one. -/
theorem one_le_count {s : Setting α} {k : ℤ} (h : s.below 1 = .ok false) (hk : s.count = .ok k) :
    1 ≤ k := by
  cases s with
  | flag b =>
      obtain rfl := Except.ok.inj hk
      exact one_le_flag h
  | integer k' =>
      obtain rfl := Except.ok.inj hk
      exact one_le_integer h
  | absent => cases hk
  | real x => cases hk
  | text t => cases hk

/-- A number that is not below one **has a whole part**. -/
theorem one_le_whole {s : Setting α} {k : ℤ} (h : s.below 1 = .ok false) (hk : s.whole = .ok k) :
    1 ≤ k := by
  cases s with
  | flag b =>
      obtain rfl := Except.ok.inj hk
      exact one_le_flag h
  | integer k' =>
      obtain rfl := Except.ok.inj hk
      exact one_le_integer h
  | real x =>
      simp only [whole] at hk
      split at hk
      · next hx =>
          obtain rfl := Except.ok.inj hk
          exact Numeral.Ordered.one_le_truncate hx (Except.ok.inj h)
      · cases hk
      · cases hk
  | absent => cases h
  | text t => cases h

end Setting

end CoEmbed
