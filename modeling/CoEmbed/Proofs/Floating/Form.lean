import CoEmbed.Proofs.Exact.Line

/-!
# The Form of Floating Point Numbers

A floating point number is a word of 64 bits: a sign, an exponent and a significand. Where it stands
on the line follows from these, and numbers compare as they stand.

* `Reads`, `reads_ofFloat` — what is read off the bits of a number.
* `IsCanonical` — significands that fill their digits, as far as the exponent lets them.
* `standing` — where a number stands on the line.
* `compare_standing`, `lt_iff` — numbers are compared as they stand.
* `exceptional?_eq` — the numbers that are not finite.

## Zero convention

There are two zeros, and both stand at zero. A value that is not a number stands there too, but it
is compared with nothing.
-/

namespace CoEmbed

namespace Floating

open Float.Model UnpackedFloat

/-! ### Bits -/

/-- The sign of a number that **is negative or not**. -/
def signOf (negative : Bool) : Sign := if negative then .negative else .positive

theorem toNat_unpackMantissa (b : BitVec Format.binary64.numBits) :
    (unpackMantissa b).toNat = b.toNat % 2 ^ 52 := by
  rw [unpackMantissa, BitVec.toNat_cast, BitVec.extractLsb_toNat, Nat.shiftRight_zero]
  rfl

theorem toNat_unpackExponent (b : BitVec Format.binary64.numBits) :
    (unpackExponent b).toNat = b.toNat / 2 ^ 52 % 2 ^ 11 := by
  rw [unpackExponent, BitVec.toNat_cast, BitVec.extractLsb_toNat, Nat.shiftRight_eq_div_pow]
  rfl

theorem ofBitVec_unpackSign (b : BitVec Format.binary64.numBits) :
    Sign.ofBitVec (unpackSign b) = signOf (decide (2 ^ 63 ≤ b.toNat)) := by
  have hb : b.toNat < 2 ^ 64 := b.isLt
  have hbit : (unpackSign b).toNat = b.toNat / 2 ^ 63 := by
    rw [unpackSign, BitVec.toNat_cast, BitVec.extractLsb_toNat, Nat.shiftRight_eq_div_pow]
    change b.toNat / 2 ^ 63 % 2 = b.toNat / 2 ^ 63
    omega
  rw [Sign.ofBitVec, signOf]
  by_cases h : 2 ^ 63 ≤ b.toNat
  · rw [if_neg, decide_eq_true h, if_pos rfl]
    intro hzero
    rw [hzero, BitVec.toNat_ofNat] at hbit
    omega
  · rw [if_pos, decide_eq_false h, if_neg Bool.false_ne_true]
    refine BitVec.eq_of_toNat_eq (hbit.trans ?_)
    rw [BitVec.toNat_ofNat]
    omega

theorem toNat_one_append (v : BitVec 52) : (1#1 ++ v).toNat = 2 ^ 52 + v.toNat := by
  rw [BitVec.toNat_append, ← Nat.shiftLeft_add_eq_or_of_lt v.isLt]
  rfl

/-- A significand and an exponent in **one form**: the significand fills its digits, unless the
exponent is the least that there is. -/
structure IsCanonical (m : ℕ) (e : ℤ) : Prop where
  lt : m < 2 ^ 53
  least : -1074 ≤ e
  most : e ≤ 971
  full : 2 ^ 52 ≤ m ∨ e = -1074

/-- What is **read off the bits** of a number: the same sign, significand and exponent, in one
form. -/
inductive Reads : Binary → UnpackedFloat → Prop
  | notANumber (b : Binary) : Reads b .notANumber
  | infinity (b : Binary) (s : Sign) : Reads b (.infinity s)
  | zero (negative : Bool) : Reads ⟨negative, 0, -1074⟩ (.zero (signOf negative))
  | finite (negative : Bool) {m : ℕ} {e : ℤ} (h : 0 < m) (hc : IsCanonical m e) :
      Reads ⟨negative, m, e⟩ (.finite (signOf negative) m e h)

theorem Reads.of_eq {negative : Bool} {s : Sign} {m m' : ℕ} {e e' : ℤ} {h : 0 < m'}
    (hs : s = signOf negative) (hm : m' = m) (he : e' = e) (hc : IsCanonical m e) :
    Reads ⟨negative, m, e⟩ (.finite s m' e' h) := by
  subst hs hm he
  exact .finite negative h hc

/-- The **digits of a word**, with the powers of two written out. -/
theorem ofFloat_eq (x : Float) : Binary.ofFloat x =
    if x.toBits.toNat / 2 ^ 52 % 2 ^ 11 = 0 then
      ⟨decide (2 ^ 63 ≤ x.toBits.toNat), x.toBits.toNat % 2 ^ 52, -1074⟩
    else ⟨decide (2 ^ 63 ≤ x.toBits.toNat), x.toBits.toNat % 2 ^ 52 + 2 ^ 52,
      ((x.toBits.toNat / 2 ^ 52 % 2 ^ 11 : ℕ) : ℤ) - 1075⟩ := by
  have h52 : twoTo 52 = 2 ^ 52 := by decide
  have h11 : twoTo 11 = 2 ^ 11 := by decide
  have h63 : twoTo 63 = 2 ^ 63 := by decide
  rw [Binary.ofFloat, h52, h11, h63]

/-- A floating point number **is read off its bits**. -/
theorem reads_ofFloat (x : Float) : Reads (Binary.ofFloat x) x.toModel.unpack := by
  let b : BitVec Format.binary64.numBits := x.toModel.toBits.toBitVec
  have hm := toNat_unpackMantissa b
  have he := toNat_unpackExponent b
  have hs := ofBitVec_unpackSign b
  have hmlt : b.toNat % 2 ^ 52 < 2 ^ 52 := Nat.mod_lt _ (by decide)
  have helt : b.toNat / 2 ^ 52 % 2 ^ 11 < 2 ^ 11 := Nat.mod_lt _ (by decide)
  have hbits : x.toBits.toNat = b.toNat := rfl
  have hbinary := ofFloat_eq x
  rw [hbits] at hbinary
  change Reads _ (UnpackedFloat.unpack .binary64 b)
  rw [UnpackedFloat.unpack]
  split
  · split
    · exact .infinity _ _
    · exact .notANumber _
  · next htop =>
      split
      · next hbottom =>
          have hlow : b.toNat / 2 ^ 52 % 2 ^ 11 = 0 :=
            he.symm.trans (congrArg BitVec.toNat hbottom)
          rw [hbinary, if_pos hlow]
          split
          · next hfraction =>
              rw [hs, ← hm, hfraction]
              exact .zero _
          · next hfraction =>
              refine .of_eq hs hm ?_ ⟨by omega, le_rfl, by decide, .inr rfl⟩
              rw [hbottom]
              rfl
      · next hbottom =>
          have hlow : b.toNat / 2 ^ 52 % 2 ^ 11 ≠ 0 := fun h =>
            hbottom (BitVec.eq_of_toNat_eq (he.trans h))
          have hhigh : b.toNat / 2 ^ 52 % 2 ^ 11 ≠ 2 ^ 11 - 1 := fun h =>
            htop (BitVec.eq_of_toNat_eq (he.trans h))
          rw [hbinary, if_neg hlow]
          refine .of_eq hs ?_ ?_ ⟨by omega, by omega, by omega, .inl (by omega)⟩
          · rw [← hm]
            exact (toNat_one_append _).trans (Nat.add_comm _ _)
          · rw [he]
            rfl

/-! ### Where a number stands -/

/-- A magnitude with a **sign**. -/
def signed (s : Sign) (r : ℝ) : ℝ :=
  match s with
  | .positive => r
  | .negative => -r

/-- Where a floating point number **stands**: a finite one at its significand times a power of
two. -/
noncomputable def standing : UnpackedFloat → EReal
  | .notANumber => (0 : ℝ)
  | .infinity .positive => ⊤
  | .infinity .negative => ⊥
  | .zero _ => (0 : ℝ)
  | .finite s m e _ => (signed s (m * 2 ^ e) : ℝ)

theorem magnitude_pos {m : ℕ} (h : 0 < m) (e : ℤ) : (0 : ℝ) < m * 2 ^ e :=
  mul_pos (Nat.cast_pos.2 h) (zpow_pos two_pos e)

/-- Of two magnitudes in one form, that with **the greater exponent** is greater. -/
theorem magnitude_lt_of_lt {m n : ℕ} {e d : ℤ} (hm : IsCanonical m e) (hn : IsCanonical n d)
    (h : e < d) : (m : ℝ) * 2 ^ e < n * 2 ^ d := by
  have hfull : 2 ^ 52 ≤ n := hn.full.resolve_right (by have := hm.least; omega)
  calc (m : ℝ) * 2 ^ e < 2 ^ 53 * 2 ^ e := by
        have := hm.lt
        gcongr
        exact_mod_cast this
    _ = 2 ^ 52 * 2 ^ (e + 1) := by
        rw [zpow_add₀ two_ne_zero]
        ring
    _ ≤ n * 2 ^ d := by
        gcongr
        · exact_mod_cast hfull
        · exact one_le_two
        · exact h

/-- Magnitudes in one form are in order **by their exponents, and then by their significands**. -/
theorem compare_magnitudes {m n : ℕ} {e d : ℤ} (hm : IsCanonical m e) (hn : IsCanonical n d) :
    (compare e d).then (compare m n) = compare ((m : ℝ) * 2 ^ e) (n * 2 ^ d) := by
  rcases lt_trichotomy e d with h | rfl | h
  · rw [compare_lt_iff_lt.2 h, compare_lt_iff_lt.2 (magnitude_lt_of_lt hm hn h)]
    rfl
  · rw [compare_eq_iff_eq.2 rfl, Ordering.eq_then]
    have hpow : (0 : ℝ) < 2 ^ e := zpow_pos two_pos e
    rcases lt_trichotomy m n with h | rfl | h
    · rw [compare_lt_iff_lt.2 h, compare_lt_iff_lt.2 (mul_lt_mul_of_pos_right (Nat.cast_lt.2 h) hpow)]
    · rw [compare_eq_iff_eq.2 rfl, compare_eq_iff_eq.2 rfl]
    · rw [compare_gt_iff_gt.2 h, compare_gt_iff_gt.2 (mul_lt_mul_of_pos_right (Nat.cast_lt.2 h) hpow)]
  · rw [compare_gt_iff_gt.2 h, compare_gt_iff_gt.2 (magnitude_lt_of_lt hn hm h)]
    rfl

/-- A number that is **in one form**, if it is finite. -/
def InForm : UnpackedFloat → Prop
  | .finite _ m e _ => IsCanonical m e
  | .notANumber | .infinity _ | .zero _ => True

theorem Reads.inForm {b : Binary} {u : UnpackedFloat} (h : Reads b u) : InForm u := by
  cases h with
  | finite negative h hc => exact hc
  | _ => trivial

theorem compare_coe (a b : ℝ) : compare (a : EReal) (b : EReal) = compare a b := by
  rcases lt_trichotomy a b with h | rfl | h
  · rw [compare_lt_iff_lt.2 h, compare_lt_iff_lt.2 (EReal.coe_lt_coe_iff.2 h)]
  · rw [compare_eq_iff_eq.2 rfl, compare_eq_iff_eq.2 rfl]
  · rw [compare_gt_iff_gt.2 h, compare_gt_iff_gt.2 (EReal.coe_lt_coe_iff.2 h)]

theorem compare_neg (a b : ℝ) : compare (-a) (-b) = (compare a b).swap := by
  rcases lt_trichotomy a b with h | rfl | h
  · rw [compare_lt_iff_lt.2 h, compare_gt_iff_gt.2 (neg_lt_neg h)]
    rfl
  · rw [compare_eq_iff_eq.2 rfl, compare_eq_iff_eq.2 rfl]
    rfl
  · rw [compare_gt_iff_gt.2 h, compare_lt_iff_lt.2 (neg_lt_neg h)]
    rfl

/-- Numbers are compared **as they stand**. -/
theorem compare_standing {u v : UnpackedFloat} (hu : InForm u) (hv : InForm v)
    (hu' : u ≠ .notANumber) (hv' : v ≠ .notANumber) :
    u.compare v = some (compare (standing u) (standing v)) := by
  have hlt : ∀ {a b : EReal}, a < b → some Ordering.lt = some (compare a b) := fun h => by
    rw [compare_lt_iff_lt.2 h]
  have hgt : ∀ {a b : EReal}, b < a → some Ordering.gt = some (compare a b) := fun h => by
    rw [compare_gt_iff_gt.2 h]
  have heq : ∀ a : EReal, some Ordering.eq = some (compare a a) := fun a => by
    rw [compare_eq_iff_eq.2 rfl]
  have hpos : ∀ {m : ℕ} (e : ℤ), 0 < m → ((0 : ℝ) : EReal) < ((m * 2 ^ e : ℝ) : EReal) :=
    fun e h => EReal.coe_lt_coe_iff.2 (magnitude_pos h e)
  have hneg : ∀ {m : ℕ} (e : ℤ), 0 < m → ((-(m * 2 ^ e) : ℝ) : EReal) < ((0 : ℝ) : EReal) :=
    fun e h => EReal.coe_lt_coe_iff.2 (neg_lt_zero.2 (magnitude_pos h e))
  cases u with
  | notANumber => exact absurd rfl hu'
  | infinity s =>
      cases v with
      | notANumber => exact absurd rfl hv'
      | infinity t =>
          cases s <;> cases t
          · exact heq ⊥
          · exact hlt bot_lt_top
          · exact hgt bot_lt_top
          · exact heq ⊤
      | zero t =>
          cases s
          · exact hlt (EReal.bot_lt_coe 0)
          · exact hgt (EReal.coe_lt_top 0)
      | finite t n d hn =>
          cases s
          · exact hlt (EReal.bot_lt_coe _)
          · exact hgt (EReal.coe_lt_top _)
  | zero s =>
      cases v with
      | notANumber => exact absurd rfl hv'
      | infinity t =>
          cases t
          · exact hgt (EReal.bot_lt_coe 0)
          · exact hlt (EReal.coe_lt_top 0)
      | zero t => exact heq _
      | finite t n d hn =>
          cases t
          · exact hgt (hneg d hn)
          · exact hlt (hpos d hn)
  | finite s m e hm =>
      cases v with
      | notANumber => exact absurd rfl hv'
      | infinity t =>
          cases t
          · cases s <;> exact hgt (EReal.bot_lt_coe _)
          · cases s <;> exact hlt (EReal.coe_lt_top _)
      | zero t =>
          cases s
          · exact hlt (hneg e hm)
          · exact hgt (hpos e hm)
      | finite t n d hn =>
          cases s <;> cases t
          · refine congrArg some ?_
            rw [compare_magnitudes hu hv]
            exact ((compare_coe _ _).trans (compare_neg _ _)).symm
          · exact hlt ((hneg e hm).trans (hpos d hn))
          · exact hgt ((hneg d hn).trans (hpos e hm))
          · refine congrArg some ?_
            rw [compare_magnitudes hu hv]
            exact (compare_coe _ _).symm

/-! ### Comparisons -/

/-- A floating point number is below another if it **compares as less**. -/
theorem lt_iff_compare (x y : Float) :
    Scalar.lt x y = true ↔ x.toModel.unpack.compare y.toModel.unpack = some .lt := by
  have hlt : Scalar.lt x y = x.toModel.unpack.lt y.toModel.unpack := by
    change decide (decide (x.toModel < y.toModel) = true) = _
    rw [Bool.decide_eq_true]
    exact Bool.decide_eq_true
  rw [hlt, UnpackedFloat.lt, beq_iff_eq]

/-- What is exceptional is **not finite**. -/
theorem exceptional?_eq (x : Float) : Scalar.exceptional? x = match x.toModel.unpack with
    | .notANumber => some .notANumber
    | .infinity .positive => some .positiveInfinity
    | .infinity .negative => some .negativeInfinity
    | .zero _ | .finite .. => none := by
  have hzero : (0.0 : Float).toModel.unpack = .zero .positive := rfl
  have hneg := lt_iff_compare x 0.0
  rw [hzero] at hneg
  change (if x.toModel.unpack.isNaN then some .notANumber
    else if x.toModel.unpack.isInf then
      some (if x < 0.0 then Exceptional.negativeInfinity else .positiveInfinity) else none) = _
  have hneg' : x < 0.0 ↔ x.toModel.unpack.compare (.zero .positive) = some .lt :=
    decide_eq_true_iff.symm.trans hneg
  cases hx : x.toModel.unpack with
  | notANumber => rfl
  | infinity s =>
      rw [hx] at hneg'
      cases s
      · exact congrArg some (if_pos (hneg'.2 rfl))
      · refine congrArg some (if_neg fun h => ?_)
        have := hneg'.1 h
        cases this
  | zero s => rfl
  | finite s m e h => rfl

theorem ne_notANumber_iff (x : Float) :
    Scalar.exceptional? x ≠ some .notANumber ↔ x.toModel.unpack ≠ .notANumber := by
  rw [exceptional?_eq]
  cases hx : x.toModel.unpack with
  | notANumber => simp
  | infinity s => cases s <;> simp
  | zero s => simp
  | finite s m e h => simp

/-- A floating point number is below another if it **stands below it**. -/
theorem lt_iff (x y : Float) : Scalar.lt x y = true ↔ Scalar.exceptional? x ≠ some .notANumber ∧
    Scalar.exceptional? y ≠ some .notANumber ∧
      standing x.toModel.unpack < standing y.toModel.unpack := by
  rw [lt_iff_compare, ne_notANumber_iff, ne_notANumber_iff]
  have hform := fun x : Float => (reads_ofFloat x).inForm
  constructor
  · intro h
    have hx : x.toModel.unpack ≠ .notANumber := by
      intro hx
      rw [hx] at h
      cases h
    have hy : y.toModel.unpack ≠ .notANumber := by
      intro hy
      rw [hy] at h
      cases hxu : x.toModel.unpack <;> rw [hxu] at h <;> cases h
    rw [compare_standing (hform x) (hform y) hx hy] at h
    exact ⟨hx, hy, compare_lt_iff_lt.1 (Option.some.inj h)⟩
  · rintro ⟨hx, hy, h⟩
    rw [compare_standing (hform x) (hform y) hx hy, compare_lt_iff_lt.2 h]

end Floating

end CoEmbed
