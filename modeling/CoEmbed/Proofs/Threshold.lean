import CoEmbed.Proofs.Exact.Line
import CoEmbed.Proofs.Outcome

/-!
# Below a Threshold

Which values of a column are found below a threshold, one by one, and what that means in exact
arithmetic.

* `IsBelow` — what a value of a column is compared as.
* `below_eq_ok` — the values of a column that are found below a threshold.
* `ne_text_of_below` — a column that is compared with a whole number has no text.
* `Setting.Precedes` — the strict order of numbers and texts, in exact arithmetic.
* `isBelow_iff_precedes` — the values below a threshold are those that precede it.

## Order convention

A number and a text are not in order, and a missing value is in order with nothing.
-/

namespace CoEmbed

variable {α : Type}

/-! ### Columns -/

/-- A column of reals has **nothing but reals and missing values**. -/
theorem mem_of_kindOf_reals {column : List (Setting α)} (h : kindOf column = .reals)
    {v : Setting α} (hv : v ∈ column) : v = .absent ∨ ∃ y, v = .real y := by
  have hall : (column.all fun v => v.isReal || v.isAbsent) = true := by
    rw [kindOf] at h
    split at h
    · cases h
    · split at h
      · next hreals => exact (Bool.and_eq_true_iff.1 hreals).2
      · split at h
        · cases h
        · split at h <;> cases h
  have hv' := List.all_eq_true.1 hall v hv
  cases v with
  | absent => exact .inl rfl
  | real y => exact .inr ⟨y, rfl⟩
  | flag b => cases hv'
  | integer k => cases hv'
  | text t => cases hv'

section

variable [Numeral α]

/-- A value of a column **is below** another value: as one of the column's kind, or for itself where
the column is of no one kind. -/
def IsBelow (column : List (Setting α)) (v c : Setting α) : Prop :=
  match kindOf column with
  | .reals | .wholes | .flags => v.before c = .ok true
  | .values => v.under c = .ok true

/-- A real is compared **with the number** of the other value. -/
theorem Setting.before_real (y : α) (c : Setting α) :
    (Setting.real y).before c = c.number.map fun x => Scalar.lt y x := by
  cases c <;> rfl

omit [Numeral α] in
/-- A threshold for flags is **taken as it is**, if at all. -/
theorem Setting.eq_of_fitting {c t : Setting α} (h : c.fitting = .ok t) : t = c := by
  cases c with
  | integer k =>
      simp only [fitting] at h
      split at h
      · exact (Except.ok.inj h).symm
      · cases h
  | absent => exact (Except.ok.inj h).symm
  | flag b => exact (Except.ok.inj h).symm
  | real x => exact (Except.ok.inj h).symm
  | text x => exact (Except.ok.inj h).symm

/-- The values of a column that are found below a threshold are those that **are below it**. -/
theorem below_eq_ok {column : List (Setting α)} {c : Setting α} {mask : List Bool}
    (h : below column c = .ok mask) :
    mask.length = column.length ∧
      ∀ (k : ℕ) v, column[k]? = some v → (mask[k]? = some true ↔ IsBelow column v c) := by
  have key : ∀ compare : Setting α → Except Fault Bool, column.mapM compare = .ok mask →
      (∀ v ∈ column, compare v = .ok true ↔ IsBelow column v c) →
      mask.length = column.length ∧
        ∀ (k : ℕ) v, column[k]? = some v → (mask[k]? = some true ↔ IsBelow column v c) := by
    intro compare hmask hcompare
    obtain ⟨hlength, hmember⟩ := getElem?_of_mapM hmask
    refine ⟨hlength, fun k v hv => ?_⟩
    obtain ⟨b, hb, hcb⟩ := hmember k v hv
    rw [← hcompare v (List.mem_of_getElem? hv), hb, hcb]
    exact ⟨fun h => congrArg Except.ok (Option.some.inj h),
      fun h => congrArg some (Except.ok.inj h)⟩
  rw [below] at h
  cases hkind : kindOf column with
  | reals =>
      rw [hkind] at h
      obtain ⟨x, hx, h⟩ := bind_eq_ok_iff.1 h
      refine key _ h fun v hv => ?_
      simp only [IsBelow, hkind]
      rcases mem_of_kindOf_reals hkind hv with rfl | ⟨y, rfl⟩
      · rfl
      · rw [Setting.before_real, Setting.before_real, Setting.number_of_operand hx]
        rfl
  | wholes =>
      rw [hkind] at h
      refine key _ h fun v _ => ?_
      simp only [IsBelow, hkind]
  | flags =>
      rw [hkind] at h
      obtain ⟨t, ht, h⟩ := bind_eq_ok_iff.1 h
      refine key _ h fun v _ => ?_
      simp only [IsBelow, hkind, Setting.eq_of_fitting ht]
  | values =>
      rw [hkind] at h
      refine key _ h fun v _ => ?_
      simp only [IsBelow, hkind]

/-- A column that can be compared with a whole number **has no texts**. -/
theorem ne_text_of_below {column : List (Setting α)} {c : ℤ} {mask : List Bool}
    (h : below column (.integer c) = .ok mask) {v : Setting α} (hv : v ∈ column) (s : String) :
    v ≠ .text s := by
  have key : ∀ compare : Setting α → Except Fault Bool, column.mapM compare = .ok mask →
      (∀ b, compare (.text s) ≠ .ok b) → v ≠ .text s := by
    rintro compare hmask hcompare rfl
    obtain ⟨k, hk⟩ := List.mem_iff_getElem?.1 hv
    obtain ⟨b, -, hb⟩ := (getElem?_of_mapM hmask).2 k _ hk
    exact hcompare b hb
  rw [below] at h
  cases hkind : kindOf column with
  | reals =>
      rcases mem_of_kindOf_reals hkind hv with rfl | ⟨y, rfl⟩ <;> nofun
  | wholes =>
      rw [hkind] at h
      exact key _ h fun b => nofun
  | flags =>
      rw [hkind] at h
      obtain ⟨t, ht, h⟩ := bind_eq_ok_iff.1 h
      obtain rfl := Setting.eq_of_fitting ht
      exact key _ h fun b => nofun
  | values =>
      rw [hkind] at h
      exact key _ h fun b => nofun

end

/-! ### Exact order -/

namespace Setting

variable [Spelling]

/-- One value **precedes** another: a text by its characters, a number by its size. -/
def Precedes (v c : Setting ℝ) : Prop :=
  (∃ a b, v = .text a ∧ c = .text b ∧ a < b) ∨
    ∃ x y, v.number = .ok x ∧ c.number = .ok y ∧ x < y

/-- Whole numbers are in order **as whole numbers**. -/
theorem precedes_integer (m n : ℤ) : (integer m).Precedes (integer n) ↔ m < n := by
  constructor
  · rintro (⟨a, b, ha, -⟩ | ⟨x, y, hx, hy, hlt⟩)
    · cases ha
    · rw [← Except.ok.inj hx, ← Except.ok.inj hy, Scalar.ofInt_real, Scalar.ofInt_real] at hlt
      exact Int.cast_lt.1 hlt
  · intro h
    exact .inr ⟨m, n, number_integer m, number_integer n, Int.cast_lt.2 h⟩

/-- Values of one kind compare **by size**, or by their characters. -/
theorem before_iff_precedes (v c : Setting ℝ) : v.before c = .ok true ↔ v.Precedes c := by
  cases v <;> cases c <;>
    simp [before, Precedes, number, bind, Except.bind, pure, Except.pure]

/-- A whole number is below a real **as a real**. -/
theorem wholeUnder_real (k : ℤ) (x : ℝ) : wholeUnder k x = true ↔ (k : ℝ) < x :=
  (wholeUnder_iff ((Scalar.exceptional?_real x).trans_ne (Option.some_ne_none _).symm) k).trans
    EReal.coe_lt_coe_iff

/-- A real is below a whole number **as a real**. -/
theorem realUnder_real (x : ℝ) (k : ℤ) : realUnder x k = true ↔ x < (k : ℝ) :=
  (realUnder_iff ((Scalar.exceptional?_real x).trans_ne (Option.some_ne_none _).symm) k).trans
    EReal.coe_lt_coe_iff

/-- Values of several kinds compare **like those of one kind**: in exact arithmetic a whole number
is not rounded where it meets a real. -/
theorem under_iff_precedes (v c : Setting ℝ) : v.under c = .ok true ↔ v.Precedes c := by
  rcases v with _ | (_ | _) | n | x | a <;> rcases c with _ | (_ | _) | m | y | b <;>
    simp [under, isNothing, ofFlag, before, Precedes, number, bind, Except.bind, pure, Except.pure,
      wholeUnder_real, realUnder_real]
  -- What is left compares a set flag with a whole number, once whole and once as a real.
  case flag.true.integer => exact_mod_cast Iff.rfl
  case integer.flag.true => exact_mod_cast Iff.rfl

end Setting

/-- In exact arithmetic the values **before a threshold** are those that precede it, whatever the
column is made of. -/
theorem isBelow_iff_precedes [Spelling] (column : List (Setting ℝ)) (v c : Setting ℝ) :
    IsBelow column v c ↔ v.Precedes c := by
  rw [IsBelow]
  split
  · exact Setting.before_iff_precedes v c
  · exact Setting.before_iff_precedes v c
  · exact Setting.before_iff_precedes v c
  · exact Setting.under_iff_precedes v c

end CoEmbed
