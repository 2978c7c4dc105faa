import CoEmbed.Proofs.Exact.Scalar
import CoEmbed.Setting

/-!
# Settings in Exact Arithmetic

A setting that stands for a number is compared as that number.

* `Spelling.silent` — a spelling for statements in which no number is written.
* `Setting.number_of_operand`, `Setting.number_of_measured`, `Setting.number_integer` — the number
  of a setting.
* `Setting.scalar_eq_number`, `Setting.scalar_nonneg` — the scalar of a setting that is compared.
* `Setting.below_of_le`, `Setting.atMost_of_lt`, `Setting.isShare_of_le` — bounds that a setting
  meets.

## Word convention

In exact arithmetic every whole number is finite, so the only settings with a number that cannot
be measured are whole numbers with no room in a word.
-/

namespace CoEmbed

/-- Numbers that are written as nothing, and never read. -/
@[reducible]
def Spelling.silent : Spelling := ⟨fun _ => "", fun _ => none⟩

namespace Setting

/-- A value that **takes part in a computation** is compared as the same scalar. -/
theorem number_of_operand {α : Type} [Numeral α] {v : Setting α} {x : α} (h : v.operand = .ok x) :
    v.number = .ok x := by
  cases v with
  | absent => cases h
  | text t => cases h
  | flag b => exact h
  | real y => exact h
  | integer k =>
      simp only [operand, scalar] at h
      split at h
      · exact h
      · cases h

section

variable [Spelling]

theorem number_integer (k : ℤ) : (integer (α := ℝ) k).number = .ok (k : ℝ) :=
  congrArg Except.ok (Scalar.ofInt_real k)

/-- What is measured is compared as **the same number**. -/
theorem number_of_measured {v : Setting ℝ} {x : ℝ} (h : v.measured = .ok x) :
    v.number = .ok x := by
  cases v with
  | integer k =>
      rw [measured] at h
      split at h
      · exact h
      · cases h
  | absent => exact number_of_operand h
  | flag b => exact number_of_operand h
  | real y => exact number_of_operand h
  | text t => exact number_of_operand h

/-- A setting that is compared as a number has **that scalar**, if it has one. -/
theorem scalar_eq_number {v : Setting ℝ} {x y : ℝ} (hx : v.scalar = .ok x)
    (hy : v.number = .ok y) : x = y := by
  have hoperand : v.operand = .ok x := by
    cases v with
    | text t => cases hy
    | absent => cases hy
    | flag b => exact hx
    | integer k => exact hx
    | real z => exact hx
  exact Except.ok.inj ((number_of_operand hoperand).symm.trans hy)

/-- A setting that is not below zero has no negative scalar. -/
theorem scalar_nonneg {v : Setting ℝ} {x : ℝ} (hx : v.scalar = .ok x)
    (h : v.below 0 = .ok false) : 0 ≤ x := by
  rw [below] at h
  cases hy : v.number with
  | error f =>
      rw [hy] at h
      cases h
  | ok y =>
      rw [hy] at h
      rw [scalar_eq_number hx hy]
      exact Scalar.lt_real_eq_false.1 (Except.ok.inj h)

theorem below_of_le {s : Setting ℝ} {x b : ℝ} (hs : s.number = .ok x) (h : b ≤ x) :
    s.below b = .ok false := by
  rw [below, hs]
  exact congrArg Except.ok (Scalar.lt_real_eq_false.2 h)

theorem atMost_of_lt {s : Setting ℝ} {x b : ℝ} (hs : s.number = .ok x) (h : b < x) :
    s.atMost b = .ok false := by
  rw [atMost, hs]
  exact congrArg Except.ok (Bool.eq_false_iff.2 (mt Scalar.le_real.1 (not_le.2 h)))

theorem isShare_of_le {s : Setting ℝ} {x : ℝ} (hs : s.number = .ok x) (h₀ : 0 ≤ x)
    (h₁ : x ≤ 1) : s.isShare = .ok true := by
  rw [isShare, hs]
  exact congrArg Except.ok
    (Bool.and_eq_true_iff.2 ⟨Scalar.le_real.2 h₀, Scalar.le_real.2 h₁⟩)

end

end Setting

end CoEmbed
