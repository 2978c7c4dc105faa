import Mathlib
import CoEmbed.Numeral

/-!
# Exact Arithmetic

The reals as scalars. Every definition of this library that is written over a type of
scalars has its exact meaning here: no scalar is exceptional, every pair is ordered, and the
sums that a program takes from the left are the sums of algebra.

* `instScalarReal` — the reals as scalars.
* `Spelling` — how reals are written and read; nothing is assumed about it.
* `Scalar.sum_real`, `Scalar.total_real` — running sums are finite sums.
* `foldlM_ok_add` — a loop whose steps add numbers and cannot fail is a sum.

## Spelling convention

Numbers are written only into messages. A statement about exact arithmetic that passes
through a message holds for every way of writing them.
-/

namespace CoEmbed

/-- Division of reals, found before the division of a scalar type. -/
noncomputable instance instDivReal : Div ℝ := DivInvMonoid.toDiv

/-- The **reals as scalars**: none is exceptional. -/
noncomputable instance instScalarReal : Scalar ℝ where
  toZero := inferInstance
  toOne := inferInstance
  toNeg := inferInstance
  toAdd := inferInstance
  toSub := inferInstance
  toMul := inferInstance
  toDiv := inferInstance
  ofNat n := n
  quotient m n := m / n
  lt a b := decide (a < b)
  eq a b := decide (a = b)
  exceptional? _ := none
  sqrt := Real.sqrt
  log := Real.log
  log2 := Real.logb (2 : ℕ)

/-- How reals are **written and read**. -/
class Spelling where
  /-- The text of a real. -/
  text : ℝ → String
  /-- The real of a text, if the text is one. -/
  ofText? : String → Option ℝ

/-- The reals as numerals, in some spelling; the fractional part is cut off toward zero. -/
noncomputable instance instNumeralReal [Spelling] : Numeral ℝ where
  toScalar := instScalarReal
  text := Spelling.text
  ofText? := Spelling.ofText?
  truncate x := if 0 ≤ x then ⌊x⌋ else ⌈x⌉

namespace Scalar

/-! ### Comparisons and classes of values -/

@[simp] theorem lt_real {a b : ℝ} : lt a b = true ↔ a < b := decide_eq_true_iff

@[simp] theorem eq_real {a b : ℝ} : eq a b = true ↔ a = b := decide_eq_true_iff

theorem lt_real_eq_false {a b : ℝ} : lt a b = false ↔ b ≤ a := by
  rw [← not_lt, ← lt_real, Bool.not_eq_true]

@[simp] theorem le_real {a b : ℝ} : le a b = true ↔ a ≤ b := by
  rw [le, Bool.or_eq_true, lt_real, eq_real, le_iff_lt_or_eq]

theorem le_min {a b c : ℝ} : a ≤ min b c ↔ a ≤ b ∧ a ≤ c := by
  rw [min]
  by_cases h : lt c b = true
  · rw [if_pos h]
    have := lt_real.1 h
    exact ⟨fun hc => ⟨hc.trans this.le, hc⟩, fun hbc => hbc.2⟩
  · rw [if_neg h]
    have := not_lt.1 (mt lt_real.2 h)
    exact ⟨fun hb => ⟨hb, hb.trans this⟩, fun hbc => hbc.1⟩

@[simp] theorem exceptional?_real (a : ℝ) : exceptional? a = none := rfl

@[simp] theorem finite_real (a : ℝ) : finite a = true := rfl

@[simp] theorem square?_real (a : ℝ) : square? a = some (a * a) := rfl

@[simp] theorem ofNat_real (n : ℕ) : (ofNat n : ℝ) = n := rfl

@[simp] theorem ofInt_real (n : ℤ) : (ofInt n : ℝ) = n := by
  cases n with
  | ofNat n => exact (Int.cast_natCast n).symm
  | negSucc n =>
      rw [Int.cast_negSucc]
      rfl

@[simp] theorem quotient_real (m n : ℤ) : (quotient m n : ℝ) = m / n := rfl

@[simp] theorem sqrt_real (a : ℝ) : sqrt a = Real.sqrt a := rfl

/-! ### Running sums -/

/-- A running sum over a list is where it started plus the sum of the list. -/
theorem foldl_add_eq_add_sum {κ M : Type*} [AddMonoid M] (f : κ → M) (s : M) (xs : List κ) :
    xs.foldl (fun s x => s + f x) s = s + (xs.map f).sum := by
  induction xs generalizing s with
  | nil => simp
  | cons x xs ih => rw [List.foldl_cons, ih, List.map_cons, List.sum_cons, add_assoc]

/-- The sum over an index is a **finite sum**. -/
theorem sum_real {n : ℕ} (f : Fin n → ℝ) : sum f = ∑ i, f i := by
  have h : sum f = (List.finRange n).foldl (fun s i => s + f i) 0 :=
    Fin.foldl_eq_foldl_finRange _ _
  rw [h, foldl_add_eq_add_sum, zero_add, Fin.sum_univ_def]

/-- The total of a list is its **sum**. -/
theorem total_real (xs : List ℝ) : total xs = xs.sum := by
  have h := foldl_add_eq_add_sum (fun x : ℝ => x) 0 xs
  rw [List.map_id', zero_add] at h
  exact h

end Scalar

/-- A loop whose steps never fail and **add a number** each ends at the sum of what they add. -/
theorem foldlM_ok_add {ε κ : Type*} (step : ℝ → κ → Except ε ℝ) (f : κ → ℝ) (xs : List κ)
    (hstep : ∀ s, ∀ x ∈ xs, step s x = .ok (s + f x)) (s : ℝ) :
    xs.foldlM step s = .ok (s + (xs.map f).sum) := by
  induction xs generalizing s with
  | nil => rw [List.map_nil, List.sum_nil, add_zero]; rfl
  | cons x xs ih =>
      rw [List.foldlM_cons, hstep s x List.mem_cons_self, List.map_cons, List.sum_cons,
        ← add_assoc]
      exact ih (fun s y hy => hstep s y (List.mem_cons_of_mem x hy)) (s + f x)

end CoEmbed
