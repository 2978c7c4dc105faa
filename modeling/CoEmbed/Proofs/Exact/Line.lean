import CoEmbed.Command.Calendar
import CoEmbed.Proofs.Exact.Setting
import CoEmbed.Threshold

/-!
# Numbers on the Line

Where a number stands on the extended line of reals, and that comparisons find it there. Nothing is
said of what arithmetic does to numbers: only of comparing them, of making them from whole numbers,
and of cutting off their fractional parts.

* `towardZero` — a real without its fractional part.
* `IsExact` — whole numbers that are numbers as they are.
* `Numeral.Valued` — numbers that stand on the line.
* `Setting.value?` — where a setting stands.
* `wholeUnder_iff`, `realUnder_iff` — whole numbers against scalars, as they are.
* `Setting.under_eq_ok` — one value is under another if it stands below it.

## Exactness convention

A whole number may be rounded when it becomes a scalar. It is not if it is small, or if it is what
is left of a scalar whose fractional part has been cut off.
-/

namespace CoEmbed

/-! ### Fractional parts -/

/-- A real **without its fractional part**. -/
noncomputable def towardZero (r : ℝ) : ℤ := if 0 ≤ r then ⌊r⌋ else ⌈r⌉

/-- A real is less than one above **what is left of it**. -/
theorem lt_towardZero_add_one (r : ℝ) : r < (towardZero r + 1 : ℤ) := by
  rw [towardZero]
  push_cast
  split
  · exact Int.lt_floor_add_one r
  · exact (Int.le_ceil r).trans_lt (lt_add_one _)

/-- A whole number is below a real if it is **below what is left of it**, or is just that, and
something was cut off above it. -/
theorem intCast_lt_iff_towardZero (n : ℤ) (r : ℝ) :
    (n : ℝ) < r ↔ n < towardZero r ∨ n = towardZero r ∧ (towardZero r : ℝ) < r := by
  rw [towardZero]
  split
  · constructor
    · intro h
      rcases (Int.le_floor.2 h.le).lt_or_eq with hlt | heq
      · exact .inl hlt
      · exact .inr ⟨heq, heq ▸ h⟩
    · rintro (h | ⟨rfl, h⟩)
      · exact (Int.cast_lt.2 h).trans_le (Int.floor_le r)
      · exact h
  · constructor
    · exact fun h => .inl (Int.lt_ceil.2 h)
    · rintro (h | ⟨rfl, h⟩)
      · exact Int.lt_ceil.1 h
      · exact absurd h (not_lt.2 (Int.le_ceil r))

/-- A real is below a whole number if **what is left of it** is, or is just that, and something was
cut off below it. -/
theorem lt_intCast_iff_towardZero (r : ℝ) (n : ℤ) :
    r < (n : ℝ) ↔ towardZero r < n ∨ towardZero r = n ∧ r < (towardZero r : ℝ) := by
  rw [towardZero]
  split
  · constructor
    · exact fun h => .inl (Int.floor_lt.2 h)
    · rintro (h | ⟨rfl, h⟩)
      · exact Int.floor_lt.1 h
      · exact absurd h (not_lt.2 (Int.floor_le r))
  · constructor
    · intro h
      rcases (Int.ceil_le.2 h.le).lt_or_eq with hlt | heq
      · exact .inl hlt
      · exact .inr ⟨heq, heq ▸ h⟩
    · rintro (h | ⟨rfl, h⟩)
      · exact (Int.le_ceil r).trans_lt (Int.cast_lt.2 h)
      · exact h

/-! ### Numbers -/

/-- A whole number that is **a number as it is**: one that is small, or the one that stands for no
time. -/
def IsExact (k : ℤ) : Prop := k.natAbs ≤ twoTo 53 ∨ k = noTime

/-- Numbers that **stand on the line**, those apart that are not a number: the latter are below
nothing, and nothing is below them. -/
class Numeral.Valued (α : Type) [Numeral α] where
  /-- Where a number stands. -/
  value : α → EReal
  /-- A number is below those that stand above it. -/
  lt_iff {x y : α} : Scalar.lt x y = true ↔ Scalar.exceptional? x ≠ some .notANumber ∧
    Scalar.exceptional? y ≠ some .notANumber ∧ value x < value y
  /-- A finite number stands among the reals, and what is left of it is a number as well. -/
  truncate {x : α} : Scalar.exceptional? x = none → ∃ r : ℝ, value x = r ∧
    Numeral.truncate x = towardZero r ∧
    Scalar.exceptional? (Scalar.ofInt (towardZero r) : α) = none ∧
    value (Scalar.ofInt (towardZero r) : α) = (towardZero r : ℝ)
  /-- An infinite number stands at its end of the line. -/
  positiveInfinity {x : α} : Scalar.exceptional? x = some .positiveInfinity → value x = ⊤
  negativeInfinity {x : α} : Scalar.exceptional? x = some .negativeInfinity → value x = ⊥
  /-- A whole number that is exact stands where it should. -/
  ofInt {k : ℤ} : IsExact k → Scalar.exceptional? (Scalar.ofInt k : α) = none ∧
    value (Scalar.ofInt k : α) = (k : ℝ)
  zero : Scalar.exceptional? (0 : α) = none ∧ value (0 : α) = (0 : ℝ)
  one : Scalar.exceptional? (1 : α) = none ∧ value (1 : α) = (1 : ℝ)

/-- The reals **stand where they are**. -/
noncomputable instance [Spelling] : Numeral.Valued ℝ where
  value x := x
  lt_iff {x y} := by
    simp only [Scalar.lt_real, Scalar.exceptional?_real, ne_eq, reduceCtorEq, not_false_eq_true,
      true_and, EReal.coe_lt_coe_iff]
  truncate {x} _ := ⟨x, rfl, rfl, rfl, by rw [Scalar.ofInt_real]⟩
  positiveInfinity h := by cases h
  negativeInfinity h := by cases h
  ofInt {k} _ := ⟨rfl, by rw [Scalar.ofInt_real]⟩
  zero := ⟨rfl, rfl⟩
  one := ⟨rfl, rfl⟩

namespace Setting

variable {α : Type} [Numeral α] [Numeral.Valued α]

open Numeral (Valued)

/-! ### Settings -/

/-- Where a setting **stands on the line**, if it is a number: a flag stands at zero or one. -/
noncomputable def value? : Setting α → Option EReal
  | .flag b => some ((b.toNat : ℤ) : ℝ)
  | .integer n => some (n : ℝ)
  | .real x => if Scalar.exceptional? x = some .notANumber then none else some (Valued.value x)
  | .absent | .text _ => none

/-- What stands on the line is **something**: a whole number or a real, once flags are taken for
numbers. -/
theorem ofFlag_of_value? {v : Setting α} {a : EReal} (h : v.value? = some a) :
    v.isNothing = false ∧ ((∃ n : ℤ, v.ofFlag = .integer n ∧ a = (n : ℝ)) ∨
      ∃ x, v.ofFlag = .real x ∧ Scalar.exceptional? x ≠ some .notANumber ∧
        a = Valued.value x) := by
  cases v with
  | absent => cases h
  | text s => cases h
  | flag b => exact ⟨rfl, .inl ⟨b.toNat, rfl, (Option.some.inj h).symm⟩⟩
  | integer n => exact ⟨rfl, .inl ⟨n, rfl, (Option.some.inj h).symm⟩⟩
  | real x =>
      rw [value?] at h
      split at h
      · cases h
      · next hx => exact ⟨decide_eq_false hx, .inr ⟨x, rfl, hx, (Option.some.inj h).symm⟩⟩

/-- What is not on the line, and no text either, is **nothing**. -/
theorem isNothing_of_value?_eq_none {v : Setting α} (h : v.value? = none)
    (htext : ∀ s, v ≠ .text s) : v.isNothing = true := by
  cases v with
  | absent => rfl
  | flag b => cases h
  | integer n => cases h
  | text s => exact absurd rfl (htext s)
  | real x =>
      rw [value?] at h
      split at h
      · next hx => exact decide_eq_true hx
      · cases h

/-- A whole number is under a number that **stands above it**. -/
theorem wholeUnder_iff {x : α} (hx : Scalar.exceptional? x ≠ some .notANumber) (n : ℤ) :
    wholeUnder n x = true ↔ ((n : ℝ) : EReal) < Valued.value x := by
  rw [wholeUnder]
  cases he : Scalar.exceptional? x with
  | none =>
      obtain ⟨r, hr, htruncate, hfinite, hvalue⟩ := Valued.truncate he
      rw [hr, EReal.coe_lt_coe_iff, intCast_lt_iff_towardZero]
      simp only [htruncate, hr, Bool.or_eq_true, Bool.and_eq_true, decide_eq_true_eq,
        Valued.lt_iff, hvalue, hfinite, he, EReal.coe_lt_coe_iff, ne_eq, reduceCtorEq,
        not_false_eq_true, true_and]
  | some e =>
      cases e with
      | notANumber => exact absurd he hx
      | positiveInfinity =>
          rw [Valued.positiveInfinity he]
          exact iff_of_true rfl (EReal.coe_lt_top _)
      | negativeInfinity =>
          rw [Valued.negativeInfinity he]
          exact iff_of_false Bool.false_ne_true not_lt_bot

/-- A number is under a whole number that **stands above it**. -/
theorem realUnder_iff {x : α} (hx : Scalar.exceptional? x ≠ some .notANumber) (n : ℤ) :
    realUnder x n = true ↔ Valued.value x < ((n : ℝ) : EReal) := by
  rw [realUnder]
  cases he : Scalar.exceptional? x with
  | none =>
      obtain ⟨r, hr, htruncate, hfinite, hvalue⟩ := Valued.truncate he
      rw [hr, EReal.coe_lt_coe_iff, lt_intCast_iff_towardZero]
      simp only [htruncate, hr, Bool.or_eq_true, Bool.and_eq_true, decide_eq_true_eq,
        Valued.lt_iff, hvalue, hfinite, he, EReal.coe_lt_coe_iff, ne_eq, reduceCtorEq,
        not_false_eq_true, true_and]
  | some e =>
      cases e with
      | notANumber => exact absurd he hx
      | positiveInfinity =>
          rw [Valued.positiveInfinity he]
          exact iff_of_false Bool.false_ne_true not_top_lt
      | negativeInfinity =>
          rw [Valued.negativeInfinity he]
          exact iff_of_true rfl (EReal.bot_lt_coe _)

/-- One value is under another if it **stands below it**: no rounding comes between them. -/
theorem under_eq_ok {v w : Setting α} {a b : EReal} (hv : v.value? = some a)
    (hw : w.value? = some b) : ∃ u, v.under w = .ok u ∧ (u = true ↔ a < b) := by
  obtain ⟨hv', hv⟩ := ofFlag_of_value? hv
  obtain ⟨hw', hw⟩ := ofFlag_of_value? hw
  rw [under, hv', hw', Bool.or_self, if_neg Bool.false_ne_true]
  rcases hv with ⟨m, hm, rfl⟩ | ⟨x, hxv, hx, rfl⟩ <;>
    rcases hw with ⟨n, hn, rfl⟩ | ⟨y, hyw, hy, rfl⟩
  · rw [hm, hn]
    exact ⟨_, rfl, by rw [decide_eq_true_iff, EReal.coe_lt_coe_iff, Int.cast_lt]⟩
  · rw [hm, hyw]
    exact ⟨_, rfl, wholeUnder_iff hy m⟩
  · rw [hxv, hn]
    exact ⟨_, rfl, realUnder_iff hx n⟩
  · rw [hxv, hyw]
    exact ⟨_, rfl, Valued.lt_iff.trans ⟨fun h => h.2.2, fun h => ⟨hx, hy, h⟩⟩⟩

end Setting

end CoEmbed
