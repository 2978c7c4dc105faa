import CoEmbed.Proofs.Exact.Setting

/-!
# Finite Scalars

A scalar that is finite may be exact, and yet others may not be finite. What is said here about
exact arithmetic holds of the finite scalars, whatever else there is.

* `Scalar.Exact` — arithmetics that are exact where they are finite.
* `Extended` — the reals, and something that is not a number.
* `Setting.operand_of_number` — a finite number takes part in computations.

## Division convention

Nothing is said about a quotient by zero, finite or not.
-/

namespace CoEmbed

/-- An arithmetic that is **exact where it is finite**: a finite scalar stands for a real, and
finite scalars are computed with and compared as what they stand for. -/
class Scalar.Exact (α : Type) [Scalar α] where
  /-- What a finite scalar stands for. -/
  value : α → ℝ
  zero : finite (0 : α) = true ∧ value (0 : α) = 0
  ofInt (k : ℤ) : finite (ofInt k : α) = true ∧ value (ofInt k : α) = k
  add {x y : α} : finite x = true → finite y = true →
    finite (x + y) = true ∧ value (x + y) = value x + value y
  sub {x y : α} : finite x = true → finite y = true →
    finite (x - y) = true ∧ value (x - y) = value x - value y
  div {x y : α} : finite x = true → finite y = true → value y ≠ 0 →
    finite (x / y) = true ∧ value (x / y) = value x / value y
  /-- A multiple is finite just where what is multiplied is. -/
  finite_mul {x y : α} : finite x = true → value x ≠ 0 → finite (x * y) = finite y
  mul {x y : α} : finite x = true → finite y = true → value (x * y) = value x * value y
  lt_iff {x y : α} : finite x = true → finite y = true → (lt x y = true ↔ value x < value y)
  eq_iff {x y : α} : finite x = true → finite y = true → (eq x y = true ↔ value x = value y)

/-- The reals **stand for themselves**. -/
noncomputable instance : Scalar.Exact ℝ where
  value x := x
  zero := ⟨rfl, rfl⟩
  ofInt k := ⟨rfl, Scalar.ofInt_real k⟩
  add _ _ := ⟨rfl, rfl⟩
  sub _ _ := ⟨rfl, rfl⟩
  div _ _ _ := ⟨rfl, rfl⟩
  finite_mul _ _ := rfl
  mul _ _ := rfl
  lt_iff _ _ := Scalar.lt_real
  eq_iff _ _ := Scalar.eq_real

/-! ### The reals and something else -/

/-- The reals, and something that is **not a number**. -/
inductive Extended where
  | real (x : ℝ)
  | notANumber

namespace Extended

/-- What is computed from something that is not a number **is not a number** either. -/
def lift (f : ℝ → ℝ) : Extended → Extended
  | real x => real (f x)
  | notANumber => notANumber

/-- Neither is what is computed from two operands of which one is not. -/
def lift₂ (f : ℝ → ℝ → Extended) : Extended → Extended → Extended
  | real x, real y => f x y
  | _, _ => notANumber

/-- No comparison holds of something that is **not a number**. -/
def compared (f : ℝ → ℝ → Bool) : Extended → Extended → Bool
  | real x, real y => f x y
  | _, _ => false

noncomputable instance : Scalar Extended where
  zero := real 0
  one := real 1
  neg := lift fun x => -x
  add := lift₂ fun x y => real (x + y)
  sub := lift₂ fun x y => real (x - y)
  mul := lift₂ fun x y => real (x * y)
  div := lift₂ fun x y => if y = 0 then notANumber else real (x / y)
  ofNat n := real n
  quotient m n := if n = 0 then notANumber else real (m / n)
  lt := compared Scalar.lt
  eq := compared Scalar.eq
  exceptional?
    | real _ => none
    | notANumber => some .notANumber
  sqrt := lift Scalar.sqrt
  log := lift Scalar.log
  log2 := lift Scalar.log2

noncomputable instance [Spelling] : Numeral Extended where
  text
    | real x => Spelling.text x
    | notANumber => Exceptional.text .notANumber
  ofText? s := (Spelling.ofText? s).map real
  truncate
    | real x => Numeral.truncate x
    | notANumber => 0

/-- Whole numbers are **reals**. -/
theorem ofInt_eq (k : ℤ) : (Scalar.ofInt k : Extended) = real k := by
  cases k with
  | ofNat n => exact congrArg real (Int.cast_natCast n).symm
  | negSucc n => exact congrArg real (Int.cast_negSucc n).symm

theorem finite_iff {x : Extended} : Scalar.finite x = true ↔ ∃ r, x = real r := by
  cases x with
  | real r => exact iff_of_true rfl ⟨r, rfl⟩
  | notANumber => exact iff_of_false Bool.false_ne_true fun ⟨r, h⟩ => by cases h

/-- A real **stands for itself**. -/
noncomputable instance : Scalar.Exact Extended where
  value
    | real x => x
    | notANumber => 0
  zero := ⟨rfl, rfl⟩
  ofInt k := by rw [ofInt_eq]; exact ⟨rfl, rfl⟩
  add hx hy := by
    obtain ⟨x, rfl⟩ := finite_iff.1 hx
    obtain ⟨y, rfl⟩ := finite_iff.1 hy
    exact ⟨rfl, rfl⟩
  sub hx hy := by
    obtain ⟨x, rfl⟩ := finite_iff.1 hx
    obtain ⟨y, rfl⟩ := finite_iff.1 hy
    exact ⟨rfl, rfl⟩
  div hx hy hne := by
    obtain ⟨x, rfl⟩ := finite_iff.1 hx
    obtain ⟨y, rfl⟩ := finite_iff.1 hy
    have hquotient : real x / real y = real (x / y) := if_neg hne
    rw [hquotient]
    exact ⟨rfl, rfl⟩
  finite_mul {x y} hx _ := by
    obtain ⟨x, rfl⟩ := finite_iff.1 hx
    cases y <;> rfl
  mul hx hy := by
    obtain ⟨x, rfl⟩ := finite_iff.1 hx
    obtain ⟨y, rfl⟩ := finite_iff.1 hy
    rfl
  lt_iff hx hy := by
    obtain ⟨x, rfl⟩ := finite_iff.1 hx
    obtain ⟨y, rfl⟩ := finite_iff.1 hy
    exact Scalar.lt_real
  eq_iff hx hy := by
    obtain ⟨x, rfl⟩ := finite_iff.1 hx
    obtain ⟨y, rfl⟩ := finite_iff.1 hy
    exact Scalar.eq_real

end Extended

/-- A setting that is compared as a finite number **takes part in computations** as that number. -/
theorem Setting.operand_of_number {α : Type} [Numeral α] {v : Setting α} {x : α}
    (h : v.number = .ok x) (hx : Scalar.finite x = true) : v.operand = .ok x := by
  cases v with
  | absent => cases h
  | text t => cases h
  | flag b => exact h
  | real y => exact h
  | integer k =>
      obtain rfl := Except.ok.inj h
      exact if_pos hx

end CoEmbed
