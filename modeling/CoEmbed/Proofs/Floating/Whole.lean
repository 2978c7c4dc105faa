import CoEmbed.Proofs.Floating.Form

/-!
# Whole Numbers in Floating Point

A whole number that needs no more binary digits than a significand has is a floating point number as
it is: nothing is rounded on the way.

* `roundWithAccuracy_eq` — what fits is not rounded.
* `unpack_pack` — what is packed can be unpacked.
* `unpack_ofNat` — a whole number whose significand fills its digits.
* `digits`, `unpack_ofNat_mul` — the significand of a whole number with few digits.
* `standing_ofInt`, `standing_of_isExact` — whole numbers stand where they should.

## Digit convention

A significand has 53 digits. The digits of a whole number are counted without the zeros behind
them.
-/

namespace CoEmbed

namespace Floating

open Float.Model UnpackedFloat

/-! ### Rounding what need not be rounded -/

/-- Digits that are all zero are **shifted out** without a trace. -/
theorem repeat_shiftRightOne (m t : ℕ) :
    Nat.repeat ExtendedMantissa.shiftRightOne t ⟨m * 2 ^ t, false, false⟩ = ⟨m, false, false⟩ := by
  induction t generalizing m with
  | zero => rw [pow_zero, mul_one]; rfl
  | succ t ih =>
      have hsplit : m * 2 ^ (t + 1) = m * 2 * 2 ^ t := by ring
      rw [Nat.repeat, hsplit, ih (m * 2), ExtendedMantissa.shiftRightOne]
      simp

/-- A significand that fills the digits, with zeros behind it, is shifted to **its place**. -/
theorem shiftToTargetExponent_eq {m : ℕ} (hm : 2 ^ 52 ≤ m) (hm' : m < 2 ^ 53) (t : ℕ) {e : ℤ}
    (he : -1074 ≤ e + t) :
    shiftToTargetExponent .binary64 (m * 2 ^ t) e .exact = (⟨m, false, false⟩, e + t) := by
  have hlog : (m * 2 ^ t).log2 = 52 + t := by
    have hpow : 0 < 2 ^ t := Nat.two_pow_pos t
    refine (Nat.log2_eq_iff (Nat.mul_ne_zero (by omega) hpow.ne')).2 ⟨?_, ?_⟩
    · rw [pow_add]
      exact Nat.mul_le_mul_right _ hm
    · rw [add_right_comm, pow_add]
      exact Nat.mul_lt_mul_of_pos_right hm' hpow
  have htarget : Format.binary64.targetExponent (totalExponent (m * 2 ^ t) e) = e + t := by
    rw [Format.targetExponent, totalExponent, hlog]
    change max (((52 + t : ℕ) : ℤ) + 1 + e - 53) (-1074) = e + t
    omega
  rw [shiftToTargetExponent, htarget, shiftToExponent]
  have hshift : (e + t - e).toNat = t := by omega
  rw [hshift]
  exact Prod.ext (repeat_shiftRightOne m t) rfl

/-- What fits is **not rounded**. -/
theorem roundWithAccuracy_eq (s : Sign) {m : ℕ} (hm : 2 ^ 52 ≤ m) (hm' : m < 2 ^ 53) (t : ℕ)
    {d e : ℤ} (hd : e + t = d) (he : -1074 ≤ d) :
    roundWithAccuracy .binary64 s (m * 2 ^ t) e .exact = .finite s m d (by omega) := by
  subst hd
  have hagain := shiftToTargetExponent_eq hm hm' 0 (e := e + t) (by simpa using he)
  rw [pow_zero, mul_one, Nat.cast_zero, add_zero] at hagain
  rw [roundWithAccuracy, shiftToTargetExponent_eq hm hm' t he]
  have hround : (⟨m, false, false⟩ : ExtendedMantissa).roundedMantissa = m := rfl
  simp only [hround, hagain]
  rw [dif_neg (by omega)]

/-! ### Packing -/

theorem ofBitVec_unpackSign_packComponents (s : Sign) (e : BitVec 11) (m : BitVec 52) :
    Sign.ofBitVec (unpackSign (packComponents .binary64 s e m)) = s := by
  have hsign : unpackSign (packComponents .binary64 s e m) = s.toBitVec := by
    refine BitVec.eq_of_getLsbD_eq fun i hi => ?_
    obtain rfl : i = 0 := by omega
    simp only [unpackSign, packComponents, BitVec.getLsbD_cast, BitVec.getLsbD_extractLsb]
    change (_ && (s.toBitVec ++ e ++ m : BitVec (1 + 11 + 52)).getLsbD 63) = _
    rw [BitVec.getLsbD_append, BitVec.getLsbD_append]
    rfl
  rw [hsign]
  cases s <;> rfl

/-- A significand that fills the digits is packed **without its first digit**. -/
theorem pack_full (s : Sign) {m biased : ℕ} {e : ℤ} (h : 0 < m) (hm : 2 ^ 52 ≤ m)
    (hm' : m < 2 ^ 53) (hbiased : (biased : ℤ) = e + 1075) (hlt : biased < 2047) :
    UnpackedFloat.pack .binary64 (.finite s m e h)
      = packComponents .binary64 s (BitVec.ofNat 11 biased) (BitVec.ofNat 52 m) := by
  have hlog : m.log2 = 52 := (Nat.log2_eq_iff h.ne').2 ⟨hm, hm'⟩
  have hexponent : (e + (Format.binary64.exponentBias : ℕ)
      + (Format.binary64.mantissaBitsWithoutImplicit : ℕ)).toNat = biased := by
    change (e + (1023 : ℕ) + (52 : ℕ)).toNat = biased
    omega
  rw [UnpackedFloat.pack]
  simp only [hexponent, hlog]
  rw [if_neg (by change ¬ 2048 ≤ biased + 1; omega)]
  exact if_pos rfl

/-- What is packed can be **unpacked**, if its significand fills the digits. -/
theorem unpack_pack (s : Sign) {m : ℕ} {e : ℤ} (h : 0 < m) (hm : 2 ^ 52 ≤ m) (hm' : m < 2 ^ 53)
    (he : -1074 ≤ e) (he' : e ≤ 971) :
    (Float.Model.pack (.finite s m e h)).unpack = .finite s m e h := by
  obtain ⟨biased, hbiased⟩ : ∃ b : ℕ, (b : ℤ) = e + 1075 := ⟨_, Int.toNat_of_nonneg (by omega)⟩
  have hpack := pack_full s h hm hm' hbiased (by omega)
  have hexponent : (BitVec.ofNat 11 biased).toNat = biased := by
    rw [BitVec.toNat_ofNat]
    exact Nat.mod_eq_of_lt (by omega)
  have hmantissa : (1#1 ++ BitVec.ofNat 52 m).toNat = m := by
    rw [toNat_one_append, BitVec.toNat_ofNat]
    omega
  have htop : BitVec.ofNat 11 biased ≠ -1#11 := fun htop => by
    have := hexponent.symm.trans (congrArg BitVec.toNat htop)
    change biased = 2047 at this
    omega
  have hbottom : BitVec.ofNat 11 biased ≠ 0#11 := fun hbottom => by
    have := hexponent.symm.trans (congrArg BitVec.toNat hbottom)
    change biased = 0 at this
    omega
  change UnpackedFloat.unpack .binary64 (UnpackedFloat.pack .binary64 _) = _
  rw [hpack, UnpackedFloat.unpack]
  simp only [unpackExponent_packComponents, unpackMantissa_packComponents,
    ofBitVec_unpackSign_packComponents]
  rw [if_neg htop, if_neg hbottom, UnpackedFloat.finite.injEq]
  refine ⟨rfl, hmantissa, ?_⟩
  rw [hexponent]
  change (biased : ℤ) - 1075 = e
  omega

/-! ### Whole numbers -/

/-- A whole number with a word for it **fills the digits** with zeros behind it. -/
theorem unpack_toFloat {n m k : ℕ} {e : ℤ} (hm : 2 ^ 52 ≤ m) (hm' : m < 2 ^ 53)
    (he : e + 52 = k) (hsmall : n < 2 ^ 53) (hn : n * 2 ^ 52 = m * 2 ^ k) :
    n.toUInt64.toFloat.toModel.unpack = .finite .positive m e (by omega) := by
  have hpow : 0 < 2 ^ k := Nat.two_pow_pos k
  have hle : 2 ^ k ≤ n := by
    refine Nat.le_of_mul_le_mul_right ?_ (Nat.two_pow_pos 52)
    rw [hn, mul_comm m]
    exact Nat.mul_le_mul_left _ hm
  have hlt : n < 2 ^ (k + 1) := by
    refine Nat.lt_of_mul_lt_mul_right (a := 2 ^ 52) ?_
    rw [hn, ← pow_add, add_assoc, add_comm k, pow_add]
    exact Nat.mul_lt_mul_of_pos_right hm' hpow
  have hk : k < 53 := (Nat.pow_lt_pow_iff_right one_lt_two).1 (hle.trans_lt hsmall)
  have hlog : n.log2 = k := (Nat.log2_eq_iff (by omega)).2 ⟨hle, hlt⟩
  have hword : n.toUInt64.toNat = n := Nat.mod_eq_of_lt (hsmall.trans (by decide))
  have hround : UnpackedFloat.round .binary64 .positive n 0 = .finite .positive m e (by omega) := by
    have htarget : Format.binary64.targetExponent (totalExponent n 0) = e := by
      rw [Format.targetExponent, totalExponent, hlog]
      change max ((k : ℤ) + 1 + 0 - 53) (-1074) = e
      omega
    have hshift : n <<< (52 - k) = m * 2 ^ 0 := by
      refine Nat.eq_of_mul_eq_mul_right hpow ?_
      rw [Nat.shiftLeft_eq, mul_assoc, ← pow_add, Nat.sub_add_cancel (by omega), hn, pow_zero,
        mul_one]
    rw [UnpackedFloat.round, htarget, decreaseExponent]
    have hamount : (0 - e).toNat = 52 - k := by omega
    simp only [hamount, hshift]
    exact roundWithAccuracy_eq .positive hm hm' 0 (by omega) (by omega)
  change (Float.Model.pack
    (UnpackedFloat.normalize .binary64 (n.toUInt64.toNat : ℤ) 0 .positive)).unpack = _
  rw [hword, UnpackedFloat.normalize, compare_gt_iff_gt.2 (Int.natCast_pos.2 (hpow.trans_le hle))]
  simp only [Int.toNat_natCast]
  rw [hround]
  exact unpack_pack .positive (by omega) hm hm' (by omega) (by omega)

/-- A whole number whose significand fills the digits **is a floating point number**. -/
theorem unpack_ofNat {n m k : ℕ} {e : ℤ} (hm : 2 ^ 52 ≤ m) (hm' : m < 2 ^ 53) (he : e + 52 = k)
    (hk : k ≤ 1023) (hn : n * 2 ^ 52 = m * 2 ^ k) :
    (Float.ofNat n).toModel.unpack = .finite .positive m e (by omega) := by
  have hpack := unpack_pack .positive (e := e) (by omega) hm hm' (by omega) (by omega)
  change (Float.ofScientific n false 0).toModel.unpack = _
  rw [Float.ofScientific]
  split
  · next hsmall =>
      have hone : (Float.exactlyRepresentablePowersOfTen[0]).toModel.unpack
        = .finite .positive (1 * 2 ^ 52) (-52) (by decide) := rfl
      change (Float.Model.pack (UnpackedFloat.mul .binary64 n.toUInt64.toFloat.toModel.unpack
        (Float.exactlyRepresentablePowersOfTen[0]).toModel.unpack)).unpack = _
      rw [unpack_toFloat hm hm' he hsmall.1 hn, hone, UnpackedFloat.mul]
      refine (congrArg (fun u => (Float.Model.pack u).unpack) ?_).trans hpack
      rw [one_mul]
      exact roundWithAccuracy_eq .positive hm hm' 52 (by omega) (by omega)
  · next hlarge =>
      have hlarge' : 2 ^ 53 ≤ n := not_lt.1 fun h => hlarge ⟨h, Nat.zero_le _⟩
      have hbits : (2 : ℤ) ^ Format.binary64.exponentBits = 2048 := rfl
      have hshift : (n <<< 53) * 10 ^ Int.toNat 0 = m * 2 ^ (k + 1) := by
        rw [Nat.shiftLeft_eq, pow_succ 2 k, ← mul_assoc, ← hn, Int.toNat_zero, pow_zero]
        ring
      change (Float.Model.pack (UnpackedFloat.ofScientific .binary64 n 0)).unpack = _
      rw [UnpackedFloat.ofScientific, dif_neg (by omega), if_neg (by decide), if_neg (by omega),
        if_pos le_rfl, UnpackedFloat.mul]
      refine (congrArg (fun u => (Float.Model.pack u).unpack) ?_).trans hpack
      change roundWithAccuracy .binary64 .positive ((n <<< 53) * 10 ^ Int.toNat 0) (-53) .exact = _
      rw [hshift]
      exact roundWithAccuracy_eq .positive hm hm' (k + 1) (by omega) (by omega)

/-- The **significand of a whole number**: its digits, and as many zeros behind them as there are
places. -/
def digits (c : ℕ) : ℕ := c * 2 ^ (52 - c.log2)

section

variable {c : ℕ} (h : 0 < c) (hc : c < 2 ^ 53)

include h

theorem digits_pos : 0 < digits c := Nat.mul_pos h (Nat.two_pow_pos _)

/-- The significand of a whole number **fills its places**. -/
theorem le_digits : 2 ^ 52 ≤ digits c := by
  calc 2 ^ 52 ≤ 2 ^ (c.log2 + (52 - c.log2)) := Nat.pow_le_pow_right two_pos (by omega)
    _ = 2 ^ c.log2 * 2 ^ (52 - c.log2) := pow_add ..
    _ ≤ c * 2 ^ (52 - c.log2) := Nat.mul_le_mul_right _ (Nat.log2_self_le h.ne')

include hc

theorem log2_lt : c.log2 < 53 := (Nat.log2_lt h.ne').2 hc

theorem digits_lt : digits c < 2 ^ 53 := by
  have hlog := log2_lt h hc
  calc c * 2 ^ (52 - c.log2) < 2 ^ (c.log2 + 1) * 2 ^ (52 - c.log2) :=
        Nat.mul_lt_mul_of_pos_right Nat.lt_log2_self (Nat.two_pow_pos _)
    _ = 2 ^ 53 := by rw [← pow_add]; congr 1; omega

/-- Zeros behind a whole number are **taken from its places**. -/
theorem digits_mul {j k : ℕ} (hk : c.log2 + j = 52 + k) : c * 2 ^ j = digits c * 2 ^ k := by
  have hlog := log2_lt h hc
  rw [digits, mul_assoc, ← pow_add]
  congr 2
  omega

/-- A whole number with few digits, and zeros behind them, is a number **with these digits**. -/
theorem unpack_ofNat_mul {j : ℕ} (hj : j ≤ 971) :
    (Float.ofNat (c * 2 ^ j)).toModel.unpack
      = .finite .positive (digits c) ((c.log2 + j : ℕ) - 52) (digits_pos h) := by
  have hlog := log2_lt h hc
  have hn : c * 2 ^ j * 2 ^ 52 = digits c * 2 ^ (c.log2 + j) := by
    rw [mul_assoc, ← pow_add, digits_mul h hc (by omega : c.log2 + (j + 52) = 52 + (c.log2 + j))]
  exact unpack_ofNat (le_digits h) (digits_lt h hc) (by omega) (by omega) hn

end

/-- A whole number with few digits, and zeros behind them, **is a number in one form**. -/
theorem standing_ofNat {c j : ℕ} (hc : c < 2 ^ 53) (hj : j ≤ 971) (h : 0 < c) :
    ∃ m e h, (Float.ofNat (c * 2 ^ j)).toModel.unpack = .finite .positive m e h ∧
      IsCanonical m e ∧ 2 ^ 52 ≤ m ∧ (m : ℝ) * 2 ^ e = ((c * 2 ^ j : ℕ) : ℝ) := by
  have hlog := log2_lt h hc
  refine ⟨_, _, _, unpack_ofNat_mul h hc hj,
    ⟨digits_lt h hc, by omega, by omega, .inl (le_digits h)⟩, le_digits h, ?_⟩
  have hdigits : c * 2 ^ (j + 52) = digits c * 2 ^ (c.log2 + j) := digits_mul h hc (by omega)
  have hn : ((c * 2 ^ j : ℕ) : ℝ) * 2 ^ 52 = (digits c : ℕ) * 2 ^ (c.log2 + j) := by
    rw [pow_add, ← mul_assoc] at hdigits
    exact_mod_cast hdigits
  rw [zpow_sub₀ two_ne_zero, zpow_natCast, ← mul_div_assoc, ← hn]
  exact mul_div_cancel_right₀ _ (by positivity)

/-- A finite number in one form **stands where its parts say**. -/
theorem standing_of_unpack {x : Float} {s : Sign} {m : ℕ} {e : ℤ} {h : 0 < m}
    (hx : x.toModel.unpack = .finite s m e h) : Scalar.exceptional? x = none ∧
      standing x.toModel.unpack = (signed s (m * 2 ^ e) : ℝ) := by
  refine ⟨by rw [exceptional?_eq, hx], ?_⟩
  rw [hx, standing]

/-- A whole number that needs no more digits than there are **stands where it should**. -/
theorem standing_ofInt {k : ℤ} {c j : ℕ} (hk : k.natAbs = c * 2 ^ j) (hc : c < 2 ^ 53)
    (hj : j ≤ 971) : Scalar.exceptional? (Scalar.ofInt k : Float) = none ∧
      standing (Scalar.ofInt k : Float).toModel.unpack = (k : ℝ) := by
  rcases Nat.eq_zero_or_pos c with rfl | hpos
  · obtain rfl : k = 0 := Int.natAbs_eq_zero.1 (hk.trans (Nat.zero_mul _))
    have hzero : (Scalar.ofInt 0 : Float).toModel.unpack = .zero .positive := rfl
    refine ⟨by rw [exceptional?_eq, hzero], ?_⟩
    rw [hzero, standing, Int.cast_zero]
  · obtain ⟨m, e, h, hunpack, hform, hfull, hvalue⟩ := standing_ofNat hc hj hpos
    rw [← hk] at hunpack hvalue
    cases k with
    | ofNat n =>
        have hstanding := standing_of_unpack (x := Scalar.ofInt (.ofNat n)) hunpack
        rw [signed, hvalue] at hstanding
        exact hstanding
    | negSucc n =>
        have hneg : (Scalar.ofInt (.negSucc n) : Float).toModel.unpack
            = .finite .negative m e h := by
          change (Float.Model.pack (Float.ofNat (n + 1)).toModel.unpack.neg).unpack = _
          rw [show Float.ofNat (n + 1) = Float.ofNat (Int.negSucc n).natAbs from rfl, hunpack]
          exact unpack_pack .negative h hfull hform.lt hform.least hform.most
        have hstanding := standing_of_unpack hneg
        rw [signed, hvalue] at hstanding
        refine ⟨hstanding.1, hstanding.2.trans ?_⟩
        rw [Int.cast_negSucc]
        rfl

/-- A whole number that is exact **stands where it should**. -/
theorem standing_of_isExact {k : ℤ} (h : IsExact k) :
    Scalar.exceptional? (Scalar.ofInt k : Float) = none ∧
      standing (Scalar.ofInt k : Float).toModel.unpack = (k : ℝ) := by
  have hbound : twoTo 53 = 2 ^ 53 := by decide
  rcases h with h | rfl
  · rw [hbound] at h
    rcases h.lt_or_eq with hlt | heq
    · exact standing_ofInt (j := 0) (by rw [pow_zero, mul_one]) hlt (by decide)
    · exact standing_ofInt (c := 1) (j := 53) (by rw [heq, one_mul]) (by decide) (by decide)
  · exact standing_ofInt (c := 1) (j := 63) (by decide) (by decide) (by decide)

end Floating

end CoEmbed
