import CoEmbed.Proofs.Floating.Ordered
import CoEmbed.Proofs.Floating.Rounding

/-!
# Rounded Operations

What floating point numbers are computed to is rounded once, to the nearest.

* `Represents` — a significand, and what is known of the digits behind it.
* `Stands` — a finite number with a sign and a magnitude.
* `stands_roundWithAccuracy` — what is rounded stands at the nearest magnitude.

## Overflow convention

What would stand too far from zero is infinite, and not finite any more.
-/

namespace CoEmbed

namespace Floating

open Float.Model UnpackedFloat

/-! ### Digits behind a significand -/

/-- A significand with **what is known of the digits behind it**: the first one, and whether there
are others. -/
structure Represents (em : ExtendedMantissa) (x : ℝ) : Prop where
  exists_rest : ∃ t : ℝ, 0 ≤ t ∧ t < 1 / 2 ∧ (em.stickyBit = true ↔ 0 < t) ∧
    x = em.mantissa + (if em.roundBit then 1 / 2 else 0) + t

section

variable {em : ExtendedMantissa} {x : ℝ}

theorem Represents.mem (h : Represents em x) : em.mantissa ≤ x ∧ x < em.mantissa + 1 := by
  obtain ⟨t, hnonneg, hhalf, -, rfl⟩ := h
  split <;> exact ⟨by linarith, by linarith⟩

/-- What is known of the digits is enough to **round to the nearest**. -/
theorem Represents.roundedMantissa (h : Represents em x) : em.roundedMantissa = roundEven x := by
  obtain ⟨hlow, hhigh⟩ := h.mem
  have hfloor : ⌊x⌋₊ = em.mantissa := by
    rw [Nat.floor_eq_iff ((Nat.cast_nonneg _).trans hlow)]
    exact ⟨hlow, hhigh⟩
  obtain ⟨m, r, s⟩ := em
  obtain ⟨t, hnonneg, hhalf, hsticky, hx⟩ := h
  rw [roundEven_eq, hfloor]
  dsimp only at hx hsticky ⊢
  cases r with
  | false =>
      have hlt : x < m + 1 / 2 := by
        rw [hx, if_neg Bool.false_ne_true]
        linarith
      rw [if_pos hlt]
      cases s <;> rfl
  | true =>
      rw [if_pos rfl] at hx
      rw [if_neg (by linarith)]
      cases s with
      | false =>
          have hzero : t = 0 := le_antisymm (not_lt.1 fun h => Bool.false_ne_true (hsticky.2 h))
            hnonneg
          rw [if_pos (by rw [hx, hzero, add_zero])]
          rfl
      | true =>
          have hpos : 0 < t := hsticky.1 rfl
          rw [if_neg (by linarith)]
          rfl

/-- A digit that is shifted out **is still known of**. -/
theorem Represents.shiftRightOne (h : Represents em x) : Represents em.shiftRightOne (x / 2) := by
  obtain ⟨m, r, s⟩ := em
  obtain ⟨t, hnonneg, hhalf, hsticky, hx⟩ := h
  dsimp only at hx hsticky
  have hdigit : (m : ℝ) / 2 = ((m / 2 : ℕ) : ℝ) + if m % 2 != 0 then 1 / 2 else 0 := by
    have hdiv : (m : ℝ) = 2 * ((m / 2 : ℕ) : ℝ) + ((m % 2 : ℕ) : ℝ) := by
      exact_mod_cast (Nat.div_add_mod m 2).symm
    rw [hdiv]
    rcases Nat.mod_two_eq_zero_or_one m with hm | hm <;> rw [hm]
    · norm_num
    · norm_num
      ring
  refine ⟨(if r then 1 / 4 else 0) + t / 2, ?_, ?_, ?_, ?_⟩
  · split <;> linarith
  · split <;> linarith
  · rw [ExtendedMantissa.shiftRightOne]
    dsimp only
    rw [Bool.or_eq_true, hsticky]
    cases r with
    | false => simp
    | true =>
        refine iff_of_true (.inl rfl) ?_
        rw [if_pos rfl]
        linarith
  · rw [ExtendedMantissa.shiftRightOne, hx, add_div, add_div, hdigit]
    dsimp only
    cases r
    · simp
    · rw [if_pos rfl, if_pos rfl]
      ring

theorem Represents.shiftRight (h : Represents em x) (t : ℕ) :
    Represents (Nat.repeat ExtendedMantissa.shiftRightOne t em) (x / 2 ^ t) := by
  induction t with
  | zero => rwa [pow_zero, div_one]
  | succ t ih =>
      rw [Nat.repeat, pow_succ, ← div_div]
      exact ih.shiftRightOne

theorem represents_exact (m : ℕ) :
    Represents (ExtendedMantissa.ofMantissaAndAccuracy m .exact) m :=
  ⟨0, le_rfl, by norm_num, by simp [ExtendedMantissa.ofMantissaAndAccuracy],
    by simp [ExtendedMantissa.ofMantissaAndAccuracy]⟩

/-- The remainder of a division says **what is known of the quotient**. -/
theorem represents_div (m : ℕ) {d : ℕ} (hd : 0 < d) :
    Represents (ExtendedMantissa.ofMantissaAndAccuracy (m / d) (accuracyOfFraction (m % d) d))
      ((m : ℝ) / d) := by
  have hd' : (0 : ℝ) < d := Nat.cast_pos.2 hd
  have hsplit : (m : ℝ) / d = ((m / d : ℕ) : ℝ) + ((m % d : ℕ) : ℝ) / d := by
    rw [div_eq_iff hd'.ne', add_mul, div_mul_cancel₀ _ hd'.ne']
    exact_mod_cast (Nat.div_add_mod' m d).symm
  have hlt : ((m % d : ℕ) : ℝ) / d < 1 := by
    rw [div_lt_one hd']
    exact_mod_cast Nat.mod_lt m hd
  rw [accuracyOfFraction]
  split
  · next hzero =>
      rw [hsplit, hzero, Nat.cast_zero, zero_div, add_zero]
      exact represents_exact _
  · next hne =>
      have hpos : (0 : ℝ) < ((m % d : ℕ) : ℝ) / d :=
        div_pos (Nat.cast_pos.2 (Nat.pos_of_ne_zero hne)) hd'
      rcases lt_trichotomy (2 * (m % d)) d with hcompare | hcompare | hcompare
      · rw [compare_lt_iff_lt.2 hcompare]
        refine ⟨_, hpos.le, ?_, iff_of_true rfl hpos, ?_⟩
        · rw [div_lt_div_iff₀ hd' two_pos, one_mul, mul_comm]
          exact_mod_cast hcompare
        · change _ = ((m / d : ℕ) : ℝ) + 0 + _
          rw [add_zero]
          exact hsplit
      · rw [compare_eq_iff_eq.2 hcompare]
        refine ⟨0, le_rfl, by norm_num, iff_of_false Bool.false_ne_true (lt_irrefl 0), ?_⟩
        have hhalf : ((m % d : ℕ) : ℝ) / d = 1 / 2 := by
          rw [div_eq_div_iff hd'.ne' two_ne_zero, one_mul, mul_comm]
          exact_mod_cast hcompare
        rw [hsplit, hhalf, add_zero]
        rfl
      · rw [compare_gt_iff_gt.2 hcompare]
        have hhalf : 1 / 2 < ((m % d : ℕ) : ℝ) / d := by
          rw [div_lt_div_iff₀ two_pos hd', one_mul, mul_comm _ 2]
          exact_mod_cast hcompare
        refine ⟨((m % d : ℕ) : ℝ) / d - 1 / 2, by linarith, by linarith,
          iff_of_true rfl (by linarith), ?_⟩
        rw [hsplit]
        change _ = ((m / d : ℕ) : ℝ) + 1 / 2 + _
        ring

end

/-! ### Finite numbers -/

/-- A **finite number**, its sign and its magnitude. The significand fills its places, unless the
last of them is the least there is. -/
inductive Stands (s : Sign) : UnpackedFloat → ℝ → Prop
  | zero : Stands s (.zero s) 0
  | finite {m : ℕ} {e : ℤ} (h : 0 < m) (hm : m < 2 ^ 53) (he : -1074 ≤ e)
      (hfull : 2 ^ 52 ≤ m ∨ e = -1074) : Stands s (.finite s m e h) (m * 2 ^ e)

theorem Stands.of_eq {s : Sign} {u : UnpackedFloat} {r r' : ℝ} (h : Stands s u r) (hr : r = r') :
    Stands s u r' := hr ▸ h

/-- A carry is the only thing that is **shifted after rounding**. -/
theorem shiftToTargetExponent_rounded {m : ℕ} (hm : m ≤ 2 ^ 53) {e : ℤ} (he : -1074 ≤ e)
    (hfull : 2 ^ 52 ≤ m ∨ e = -1074) :
    ∃ m' e', shiftToTargetExponent .binary64 m e .exact = (⟨m', false, false⟩, e') ∧
      m' < 2 ^ 53 ∧ -1074 ≤ e' ∧ (2 ^ 52 ≤ m' ∨ e' = -1074) ∧ (m' : ℝ) * 2 ^ e' = m * 2 ^ e := by
  rcases hm.eq_or_lt with rfl | hlt
  · refine ⟨2 ^ 52, e + (1 : ℕ), shiftToTargetExponent_eq (m := 2 ^ 52) le_rfl (by norm_num) 1
      (by omega), by norm_num, by omega, .inl le_rfl, ?_⟩
    rw [zpow_add₀ two_ne_zero]
    push_cast
    ring
  · refine ⟨m, e, ?_, hlt, he, hfull, rfl⟩
    have htarget : Format.binary64.targetExponent (totalExponent m e) - e ≤ 0 := by
      have hlog : m.log2 < 53 := by
        rcases Nat.eq_zero_or_pos m with rfl | hpos
        · decide
        · exact (Nat.log2_lt hpos.ne').2 hlt
      rw [Format.targetExponent, totalExponent]
      change max ((m.log2 : ℤ) + 1 + e - 53) (-1074) - e ≤ 0
      omega
    rw [shiftToTargetExponent, shiftToExponent, Int.toNat_of_nonpos htarget]
    exact Prod.ext rfl (add_zero e)

/-- The exponent of a significand is **the place that rounding looks at**. -/
theorem targetExponent_eq_place {m : ℕ} {x : ℝ} {e : ℤ} (hx : m ≤ x ∧ x < m + 1) (hpos : 0 < x)
    (he : 2 ^ 52 ≤ m ∨ e ≤ -1074) :
    Format.binary64.targetExponent (totalExponent m e) = place (x * 2 ^ e) := by
  have hpow : (0 : ℝ) < 2 ^ e := zpow_pos two_pos e
  rw [Format.targetExponent, totalExponent]
  change max ((m.log2 : ℤ) + 1 + e - 53) (-1074) = _
  refine (place_eq (mul_pos hpos hpow) (le_max_right _ _) ?_ ?_).symm
  · have hlt : x < 2 ^ (m.log2 + 1) := by
      refine hx.2.trans_le ?_
      exact_mod_cast Nat.succ_le_of_lt (Nat.lt_log2_self (n := m))
    calc x * 2 ^ e < 2 ^ (m.log2 + 1) * 2 ^ e := mul_lt_mul_of_pos_right hlt hpow
      _ = 2 ^ ((m.log2 : ℤ) + 1 + e) := by
          rw [zpow_add₀ two_ne_zero, ← zpow_natCast]
          rfl
      _ ≤ 2 ^ (max ((m.log2 : ℤ) + 1 + e - 53) (-1074) + 53) :=
          zpow_le_zpow_right₀ one_le_two (by omega)
  · rcases Nat.eq_zero_or_pos m with rfl | hm
    · right
      rw [Nat.log2_zero]
      omega
    · refine (le_total ((m.log2 : ℤ) + 1 + e - 53) (-1074)).symm.imp (fun h => ?_) max_eq_right
      rw [max_eq_left h]
      have hle : (2 : ℝ) ^ m.log2 ≤ x := by
        refine le_trans ?_ hx.1
        exact_mod_cast Nat.log2_self_le hm.ne'
      calc (2 : ℝ) ^ ((m.log2 : ℤ) + 1 + e - 53 + 52) = 2 ^ m.log2 * 2 ^ e := by
            rw [← zpow_natCast, ← zpow_add₀ two_ne_zero]
            congr 1
            ring
        _ ≤ x * 2 ^ e := mul_le_mul_of_nonneg_right hle hpow.le

/-- What is rounded **stands at the nearest magnitude**. -/
theorem stands_roundWithAccuracy (s : Sign) {m : ℕ} {e : ℤ} {a : Accuracy} {x : ℝ}
    (hx : Represents (ExtendedMantissa.ofMantissaAndAccuracy m a) x) (hpos : 0 < x)
    (he : 2 ^ 52 ≤ m ∨ e ≤ -1074) :
    Stands s (roundWithAccuracy .binary64 s m e a) (nearest (x * 2 ^ e)) := by
  have hstart : (ExtendedMantissa.ofMantissaAndAccuracy m a).mantissa = m := by
    cases a with
    | exact => rfl
    | inexact o => cases o <;> rfl
  have hmem := hx.mem
  rw [hstart] at hmem
  have htarget := targetExponent_eq_place hmem hpos he
  have hpow : ∀ e : ℤ, (0 : ℝ) < 2 ^ e := fun e => zpow_pos two_pos e
  have hv : 0 < x * 2 ^ e := mul_pos hpos (hpow e)
  have hplace : e ≤ place (x * 2 ^ e) := by
    rcases he with hfull | he
    · have hlog : 52 ≤ m.log2 := (Nat.le_log2 (by omega)).2 hfull
      rw [← htarget, Format.targetExponent, totalExponent]
      change e ≤ max ((m.log2 : ℤ) + 1 + e - 53) (-1074)
      omega
    · exact he.trans (neg_le_place _)
  obtain ⟨t, ht⟩ : ∃ t : ℕ, place (x * 2 ^ e) = e + t :=
    ⟨(place (x * 2 ^ e) - e).toNat, by omega⟩
  have hquotient : x / 2 ^ t = x * 2 ^ e / 2 ^ place (x * 2 ^ e) := by
    rw [ht, zpow_add₀ two_ne_zero, zpow_natCast, mul_comm x, mul_div_mul_left _ _ (hpow e).ne']
  have hfirst : shiftToTargetExponent .binary64 m e a
      = (Nat.repeat ExtendedMantissa.shiftRightOne t (ExtendedMantissa.ofMantissaAndAccuracy m a),
        place (x * 2 ^ e)) := by
    rw [shiftToTargetExponent, htarget, shiftToExponent, ht, add_sub_cancel_left, Int.toNat_natCast]
    rfl
  have hrounded := (hx.shiftRight t).roundedMantissa
  rw [hquotient] at hrounded
  obtain ⟨m', e', hsecond, hm', he', hfull', hvalue⟩ :=
    shiftToTargetExponent_rounded (significand_le hv.le) (neg_le_place _) (le_significand hv)
  rw [roundWithAccuracy, hfirst]
  dsimp only
  rw [hrounded]
  rw [significand_eq_roundEven] at hsecond
  rw [hsecond]
  dsimp only
  split
  · next hzero =>
      refine Stands.zero.of_eq ?_
      rw [nearest_eq_mul, ← hvalue, hzero, Nat.cast_zero, zero_mul]
  · next hne => exact (Stands.finite _ hm' he' hfull').of_eq hvalue

/-! ### Packing -/

/-- A significand that does not fill its places is packed **as it is**. -/
theorem pack_least (s : Sign) {m : ℕ} (h : 0 < m) (hm : m < 2 ^ 52) :
    UnpackedFloat.pack .binary64 (.finite s m (-1074) h)
      = packComponents .binary64 s 0#11 (BitVec.ofNat 52 m) := by
  have hlog : m.log2 < 52 := (Nat.log2_lt h.ne').2 hm
  rw [UnpackedFloat.pack]
  dsimp only
  rw [if_neg (by decide)]
  refine if_neg ?_
  change m.log2 + 1 ≠ 53
  omega

/-- What is packed can be unpacked, also if **the last place is the least** there is. -/
theorem unpack_pack_least (s : Sign) {m : ℕ} (h : 0 < m) (hm : m < 2 ^ 52) :
    (Float.Model.pack (.finite s m (-1074) h)).unpack = .finite s m (-1074) h := by
  have hmantissa : (BitVec.ofNat 52 m).toNat = m := by
    rw [BitVec.toNat_ofNat]
    exact Nat.mod_eq_of_lt hm
  have hne : BitVec.ofNat 52 m ≠ 0#52 := fun hzero =>
    h.ne' (hmantissa.symm.trans (congrArg BitVec.toNat hzero))
  change UnpackedFloat.unpack .binary64 (UnpackedFloat.pack .binary64 _) = _
  rw [pack_least s h hm, UnpackedFloat.unpack]
  simp only [unpackExponent_packComponents, unpackMantissa_packComponents,
    ofBitVec_unpackSign_packComponents]
  rw [if_neg (by decide), if_pos trivial, dif_neg hne, UnpackedFloat.finite.injEq]
  exact ⟨rfl, hmantissa, rfl⟩

/-- What is packed can be unpacked, **unless it stands too far from zero**. -/
theorem Stands.unpack_pack {s : Sign} {u : UnpackedFloat} {r : ℝ} (h : Stands s u r)
    (hr : r < 2 ^ 1024) : Stands s (Float.Model.pack u).unpack r := by
  cases h with
  | zero =>
      cases s <;> exact .zero
  | @finite m e h hm he hfull =>
      rcases hfull with hfull | rfl
      · have hmost : e ≤ 971 := by
          by_contra! hlt
          refine hr.not_ge ?_
          calc (2 : ℝ) ^ 1024 = 2 ^ 52 * 2 ^ (972 : ℤ) := by
                rw [← zpow_natCast, ← zpow_natCast, ← zpow_add₀ two_ne_zero]
                rfl
            _ ≤ (m : ℝ) * 2 ^ e := by
                gcongr
                · exact_mod_cast hfull
                · exact one_le_two
                · exact hlt
        rw [CoEmbed.Floating.unpack_pack s h hfull hm he hmost]
        exact .finite h hm he (.inl hfull)
      · rcases lt_or_ge m (2 ^ 52) with hlt | hge
        · rw [unpack_pack_least s h hlt]
          exact .finite h hm he (.inr rfl)
        · rw [CoEmbed.Floating.unpack_pack s h hge hm he (by decide)]
          exact .finite h hm he (.inr rfl)

/-- What stands too far from zero is packed **as infinite**. -/
theorem Stands.unpack_pack_infinity {s : Sign} {u : UnpackedFloat} {r : ℝ} (h : Stands s u r)
    (hr : 2 ^ 1024 ≤ r) : (Float.Model.pack u).unpack = .infinity s := by
  cases h with
  | zero => exact absurd hr (not_le.2 (by positivity))
  | @finite m e h hm he hfull =>
      have hlarge : 972 ≤ e := by
        by_contra! hlt
        refine hr.not_gt ?_
        calc (m : ℝ) * 2 ^ e < 2 ^ 53 * 2 ^ e :=
              mul_lt_mul_of_pos_right (by exact_mod_cast hm) (zpow_pos two_pos e)
          _ ≤ 2 ^ 53 * 2 ^ (971 : ℤ) := by
              gcongr
              · exact one_le_two
              · omega
          _ = 2 ^ 1024 := by
              rw [← zpow_natCast, ← zpow_natCast, ← zpow_add₀ two_ne_zero]
              rfl
      have hpack : UnpackedFloat.pack .binary64 (.finite s m e h)
          = packComponents .binary64 s (-1#11) 0#52 := by
        rw [UnpackedFloat.pack]
        dsimp only
        refine if_pos ?_
        change 2048 ≤ (e + (1023 : ℕ) + (52 : ℕ)).toNat + 1
        omega
      change UnpackedFloat.unpack .binary64 (UnpackedFloat.pack .binary64 _) = _
      rw [hpack]
      cases s <;> rfl

/-! ### Arithmetic -/

/-- A finite number is one that **fits**. -/
theorem Stands.nearest_eq {s : Sign} {u : UnpackedFloat} {r : ℝ} (h : Stands s u r) :
    nearest r = r := by
  cases h with
  | zero => exact nearest_zero
  | finite h hm he hfull => exact nearest_natCast_mul_zpow hm he

theorem Stands.nonneg {s : Sign} {u : UnpackedFloat} {r : ℝ} (h : Stands s u r) : 0 ≤ r := by
  cases h with
  | zero => exact le_rfl
  | @finite m e h hm he hfull => exact (magnitude_pos h e).le

/-- An exponent is decreased **without a change of value**. -/
theorem decreaseExponent_value (m : ℕ) {e d : ℤ} (h : d ≤ e) :
    (((decreaseExponent m e d).1 : ℕ) : ℝ) * 2 ^ d = m * 2 ^ e := by
  obtain ⟨j, hj⟩ := Int.eq_ofNat_of_zero_le (sub_nonneg.2 h)
  rw [decreaseExponent, hj, Int.toNat_natCast, Nat.shiftLeft_eq, Nat.cast_mul, Nat.cast_pow,
    Nat.cast_ofNat, ← zpow_natCast, mul_assoc, ← zpow_add₀ two_ne_zero, ← hj, sub_add_cancel]

/-- Any number of units is rounded **to the nearest magnitude**. -/
theorem stands_round (s : Sign) {n : ℕ} (hn : 0 < n) (e : ℤ) :
    Stands s (UnpackedFloat.round .binary64 s n e) (nearest (n * 2 ^ e)) := by
  have htarget : Format.binary64.targetExponent (totalExponent n e)
      = max ((n.log2 : ℤ) + 1 + e - 53) (-1074) := rfl
  rw [UnpackedFloat.round, htarget]
  generalize htop : max ((n.log2 : ℤ) + 1 + e - 53) (-1074) = d
  rcases le_total e d with hle | hle
  · -- there are no places to be added
    rw [decreaseExponent, Int.toNat_of_nonpos (by omega)]
    dsimp only
    rw [Nat.cast_zero, sub_zero, Nat.shiftLeft_zero]
    refine stands_roundWithAccuracy s (represents_exact n) (Nat.cast_pos.2 hn) ?_
    rcases lt_or_ge n.log2 52 with hlog | hlog
    · right
      omega
    · exact .inl ((Nat.le_log2 hn.ne').1 hlog)
  · have hvalue := decreaseExponent_value n hle
    have hexponent : (decreaseExponent n e d).2 = d := by
      rw [decreaseExponent, Int.toNat_of_nonneg (by omega)]
      exact sub_sub_cancel e d
    have hpos : 0 < (decreaseExponent n e d).1 := by
      rw [decreaseExponent, Nat.shiftLeft_eq]
      exact Nat.mul_pos hn (Nat.two_pow_pos _)
    have hfull : 2 ^ 52 ≤ (decreaseExponent n e d).1 ∨ d ≤ -1074 := by
      rcases le_total ((n.log2 : ℤ) + 1 + e - 53) (-1074) with hlow | hlow
      · right
        omega
      · left
        rw [max_eq_left hlow] at htop
        rw [decreaseExponent, Nat.shiftLeft_eq]
        calc 2 ^ 52 = 2 ^ (n.log2 + (e - d).toNat) := by
              congr 1
              omega
          _ = 2 ^ n.log2 * 2 ^ (e - d).toNat := pow_add ..
          _ ≤ n * 2 ^ (e - d).toNat := Nat.mul_le_mul_right _ (Nat.log2_self_le hn.ne')
    have hround := stands_roundWithAccuracy s (represents_exact _) (Nat.cast_pos.2 hpos) hfull
    have hpair : decreaseExponent n e d = ((decreaseExponent n e d).1, d) :=
      Prod.ext rfl hexponent
    rw [hpair]
    exact hvalue ▸ hround

/-- Any number of units, or none, is rounded **to the nearest number**. -/
theorem stands_normalize (n : ℕ) (e : ℤ) :
    Stands .positive (UnpackedFloat.normalize .binary64 n e .positive) (nearest (n * 2 ^ e)) := by
  rcases Nat.eq_zero_or_pos n with rfl | hpos
  · rw [Nat.cast_zero (R := ℝ), zero_mul, nearest_zero]
    exact .zero
  · rw [UnpackedFloat.normalize, compare_gt_iff_gt.2 (Int.natCast_pos.2 hpos)]
    exact stands_round .positive hpos e

/-- A sum is rounded **to the nearest**. -/
theorem Stands.add {u v : UnpackedFloat} {r t : ℝ} (hu : Stands .positive u r)
    (hv : Stands .positive v t) : Stands .positive (UnpackedFloat.add .binary64 u v)
      (nearest (r + t)) := by
  cases hu with
  | zero =>
      rw [zero_add, hv.nearest_eq]
      cases hv with
      | zero => exact .zero
      | finite h hm he hfull => exact .finite h hm he hfull
  | @finite m e h hm he hfull =>
      cases hv with
      | zero =>
          have hu := Stands.finite (s := .positive) h hm he hfull
          rw [add_zero, hu.nearest_eq]
          exact hu
      | @finite n d h' hn hd hfull' =>
          have hsum : (((decreaseExponent m e (min e d)).1 + (decreaseExponent n d (min e d)).1 : ℕ)
              : ℝ) * 2 ^ min e d = m * 2 ^ e + n * 2 ^ d := by
            rw [Nat.cast_add, add_mul, decreaseExponent_value m (min_le_left e d),
              decreaseExponent_value n (min_le_right e d)]
          have hmantissa : Sign.positive.apply (decreaseExponent m e (min e d)).1
              + Sign.positive.apply (decreaseExponent n d (min e d)).1
              = ((decreaseExponent m e (min e d)).1 + (decreaseExponent n d (min e d)).1 : ℕ) :=
            (Nat.cast_add _ _).symm
          rw [UnpackedFloat.add, ← hsum]
          dsimp only
          rw [hmantissa]
          exact stands_normalize _ _

/-- A difference that is not below zero is rounded **to the nearest**. -/
theorem Stands.sub {u v : UnpackedFloat} {r t : ℝ} (hu : Stands .positive u r)
    (hv : Stands .positive v t) (hle : t ≤ r) :
    Stands .positive (UnpackedFloat.sub .binary64 u v) (nearest (r - t)) := by
  cases hv with
  | zero =>
      rw [sub_zero, hu.nearest_eq]
      cases hu with
      | zero => exact .zero
      | finite h hm he hfull => exact .finite h hm he hfull
  | @finite n d h' hn hd hfull' =>
      cases hu with
      | zero => exact absurd hle (magnitude_pos h' d).not_ge
      | @finite m e h hm he hfull =>
          have hleft := decreaseExponent_value m (min_le_left e d)
          have hright := decreaseExponent_value n (min_le_right e d)
          have hfewer :
              (decreaseExponent n d (min e d)).1 ≤ (decreaseExponent m e (min e d)).1 := by
            rw [← hleft, ← hright] at hle
            exact_mod_cast le_of_mul_le_mul_right hle (zpow_pos two_pos _)
          have hdifference : (((decreaseExponent m e (min e d)).1
              - (decreaseExponent n d (min e d)).1 : ℕ) : ℝ) * 2 ^ min e d
                = m * 2 ^ e - n * 2 ^ d := by
            rw [Nat.cast_sub hfewer, sub_mul, hleft, hright]
          have hmantissa : Sign.positive.apply (decreaseExponent m e (min e d)).1
              - Sign.positive.apply (decreaseExponent n d (min e d)).1
              = ((decreaseExponent m e (min e d)).1 - (decreaseExponent n d (min e d)).1 : ℕ) :=
            (Nat.cast_sub hfewer).symm
          rw [UnpackedFloat.sub, ← hdifference]
          dsimp only
          rw [hmantissa]
          exact stands_normalize _ _

/-- A quotient of numbers of any size is rounded **to the nearest**. -/
theorem stands_divCore (s : Sign) {m n : ℕ} (hm : 0 < m) (hn : 0 < n) (e d : ℤ) :
    Stands s (roundWithAccuracy .binary64 s (divCore .binary64 m e n d).1
      (divCore .binary64 m e n d).2.1 (divCore .binary64 m e n d).2.2)
      (nearest (m * 2 ^ e / (n * 2 ^ d))) := by
  have htarget : min (e - d) (Format.binary64.targetExponent (totalExponent m e - totalExponent n d))
      = min (e - d) (max ((m.log2 : ℤ) + 1 + e - (n.log2 + 1 + d) - 53) (-1074)) := rfl
  rw [divCore, htarget]
  generalize hc : min (e - d) (max ((m.log2 : ℤ) + 1 + e - (n.log2 + 1 + d) - 53) (-1074)) = c
  obtain ⟨j, hj⟩ : ∃ j : ℕ, e - d - c = j := ⟨(e - d - c).toNat, by omega⟩
  dsimp only
  rw [hj, Int.toNat_natCast, Nat.shiftLeft_eq]
  have hpow : (0 : ℝ) < 2 ^ d := zpow_pos two_pos d
  have hvalue : ((m * 2 ^ j : ℕ) : ℝ) / n * 2 ^ c = m * 2 ^ e / (n * 2 ^ d) := by
    have hsplit : e = j + c + d := by omega
    rw [hsplit, zpow_add₀ two_ne_zero, zpow_add₀ two_ne_zero, zpow_natCast, ← mul_assoc,
      mul_div_mul_right _ _ hpow.ne', Nat.cast_mul, Nat.cast_pow, Nat.cast_ofNat]
    ring
  rw [← hvalue]
  refine stands_roundWithAccuracy s (represents_div _ hn) ?_ ?_
  · exact div_pos (Nat.cast_pos.2 (Nat.mul_pos hm (Nat.two_pow_pos j))) (Nat.cast_pos.2 hn)
  · rcases lt_or_ge (-1074) c with hlow | hlow
    · left
      rw [Nat.le_div_iff_mul_le hn]
      calc 2 ^ 52 * n ≤ 2 ^ 52 * 2 ^ (n.log2 + 1) :=
            Nat.mul_le_mul_left _ Nat.lt_log2_self.le
        _ = 2 ^ (52 + (n.log2 + 1)) := (pow_add ..).symm
        _ ≤ 2 ^ (m.log2 + j) := Nat.pow_le_pow_right two_pos (by omega)
        _ = 2 ^ m.log2 * 2 ^ j := pow_add ..
        _ ≤ m * 2 ^ j := Nat.mul_le_mul_right _ (Nat.log2_self_le hm.ne')
    · exact .inr hlow

/-- A quotient is rounded **to the nearest**. -/
theorem Stands.div {s : Sign} {u v : UnpackedFloat} {r t : ℝ} (hu : Stands s u r)
    (hv : Stands .positive v t) (ht : 0 < t) :
    Stands s (UnpackedFloat.div .binary64 u v) (nearest (r / t)) := by
  cases hv with
  | zero => exact absurd ht (lt_irrefl 0)
  | @finite n d h' hn hd hfull' =>
      cases hu with
      | zero =>
          rw [zero_div, nearest_zero]
          cases s <;> exact .zero
      | @finite m e h hm he hfull =>
          have hdiv := stands_divCore s h h' e d
          cases s <;> exact hdiv

/-- A product is rounded **to the nearest**. -/
theorem Stands.mul {s : Sign} {u v : UnpackedFloat} {r t : ℝ} (hu : Stands s u r)
    (hv : Stands .positive v t) : Stands s (UnpackedFloat.mul .binary64 u v) (nearest (r * t)) := by
  cases hu with
  | zero =>
      rw [zero_mul, nearest_zero]
      cases hv <;> cases s <;> exact .zero
  | @finite m e h hm he hfull =>
      cases hv with
      | zero =>
          rw [mul_zero, nearest_zero]
          cases s <;> exact .zero
      | @finite n d h' hn hd hfull' =>
          have hplaces : 2 ^ 52 ≤ m * n ∨ e + d ≤ -1074 := by
            rcases hfull with hfull | rfl
            · exact .inl (hfull.trans (Nat.le_mul_of_pos_right m h'))
            · rcases hfull' with hfull' | rfl
              · exact .inl (hfull'.trans (Nat.le_mul_of_pos_left n h))
              · exact .inr (by decide)
          have hround := fun s => stands_roundWithAccuracy s (represents_exact (m * n))
            (Nat.cast_pos.2 (Nat.mul_pos h h')) hplaces
          have hvalue : ((m * n : ℕ) : ℝ) * 2 ^ (e + d) = m * 2 ^ e * (n * 2 ^ d) := by
            rw [zpow_add₀ two_ne_zero, Nat.cast_mul]
            ring
          rw [← hvalue]
          cases s <;> exact hround _

/-! ### Floating point numbers -/

/-- A floating point number that is **not negative**, and where it stands. -/
def At (x : Float) (r : ℝ) : Prop := Stands .positive x.toModel.unpack r

section

variable {x y : Float} {r t : ℝ}

theorem At.nonneg (h : At x r) : 0 ≤ r := Stands.nonneg h

theorem At.nearest_eq (h : At x r) : nearest r = r := Stands.nearest_eq h

theorem at_zero : At 0 0 := .zero

theorem at_one : At 1 1 := by
  have hone : (1 : Float).toModel.unpack = .finite .positive (2 ^ 52) (-52) (by decide) := rfl
  rw [At, hone]
  refine (Stands.finite _ (by decide) (by decide) (.inl le_rfl)).of_eq ?_
  norm_num

theorem At.add (hx : At x r) (hy : At y t) (h : nearest (r + t) < 2 ^ 1024) :
    At (x + y) (nearest (r + t)) :=
  Stands.unpack_pack (Stands.add hx hy) h

theorem At.sub (hx : At x r) (hy : At y t) (hle : t ≤ r) (h : nearest (r - t) < 2 ^ 1024) :
    At (x - y) (nearest (r - t)) :=
  Stands.unpack_pack (Stands.sub hx hy hle) h

theorem At.mul (hx : At x r) (hy : At y t) (h : nearest (r * t) < 2 ^ 1024) :
    At (x * y) (nearest (r * t)) :=
  Stands.unpack_pack (Stands.mul hx hy) h

theorem At.div (hx : At x r) (hy : At y t) (ht : 0 < t) (h : nearest (r / t) < 2 ^ 1024) :
    At (x / y) (nearest (r / t)) :=
  Stands.unpack_pack (Stands.div hx hy ht) h

/-- A count **stands at the nearest number** that fits. -/
theorem at_ofNat {n : ℕ} (h : nearest n < 2 ^ 1024) : At (Scalar.ofNat n) (nearest n) := by
  change Stands .positive (Float.ofScientific n false 0).toModel.unpack _
  rw [Float.ofScientific]
  split
  · next hsmall =>
      -- a count with a word for it is multiplied by one
      have hword : At n.toUInt64.toFloat n := by
        have hn : n.toUInt64.toNat = n := Nat.mod_eq_of_lt (hsmall.1.trans (by decide))
        change Stands .positive (Float.Model.pack
          (UnpackedFloat.normalize .binary64 (n.toUInt64.toNat : ℤ) 0 .positive)).unpack n
        have hnormal := stands_normalize n 0
        rw [zpow_zero, mul_one, nearest_natCast hsmall.1] at hnormal
        rw [nearest_natCast hsmall.1] at h
        rw [hn]
        exact hnormal.unpack_pack h
      have hmul := hword.mul at_one (by rwa [mul_one])
      rwa [mul_one] at hmul
  · change Stands .positive (Float.Model.pack
      (UnpackedFloat.ofScientific .binary64 n 0)).unpack _
    have hbits : (2 : ℤ) ^ Format.binary64.exponentBits = 2048 := rfl
    rw [UnpackedFloat.ofScientific]
    split
    · next hzero =>
        rw [hzero, Nat.cast_zero, nearest_zero]
        exact .zero
    · next hne =>
        rw [if_neg (by decide), if_neg (by omega), if_pos le_rfl, UnpackedFloat.mul]
        refine Stands.unpack_pack ?_ h
        have hpos : 0 < n := Nat.pos_of_ne_zero hne
        have hround := stands_roundWithAccuracy .positive (represents_exact (n <<< 53 * 1))
          (e := -53) ?_ (.inl ?_)
        · have hvalue : ((n <<< 53 * 1 : ℕ) : ℝ) * 2 ^ (-53 : ℤ) = n := by
            rw [mul_one, Nat.shiftLeft_eq, Nat.cast_mul, mul_assoc]
            norm_num
          rw [hvalue] at hround
          exact hround
        · rw [mul_one, Nat.shiftLeft_eq]
          positivity
        · rw [mul_one, Nat.shiftLeft_eq]
          exact le_trans (by norm_num) (Nat.le_mul_of_pos_left _ hpos)

/-- Counts that are exact are **far from too large**. -/
theorem natCast_lt_limit {n : ℕ} (hn : n < 2 ^ 53) : (n : ℝ) < 2 ^ 1024 :=
  calc (n : ℝ) < 2 ^ 53 := by exact_mod_cast hn
    _ ≤ 2 ^ 1024 := pow_le_pow_right₀ one_le_two (by norm_num)

theorem one_lt_limit : (1 : ℝ) < 2 ^ 1024 := one_lt_pow₀ one_lt_two (by norm_num)

/-- A count with few digits **stands where it should**. -/
theorem at_ofNat_of_lt {n : ℕ} (hn : n < 2 ^ 53) : At (Scalar.ofNat n) n := by
  have hexact := nearest_natCast hn
  have hat := at_ofNat (hexact.trans_lt (natCast_lt_limit hn))
  rwa [hexact] at hat

/-- A quotient of counts is **rounded once**. -/
theorem at_quotient {m n : ℕ} (hn : 0 < n) (h : nearest (m / n) < 2 ^ 1024) :
    At (Scalar.quotient m n) (nearest (m / n)) := by
  have hunrounded : ∀ {k : ℕ} (hk : 0 < k), Scalar.unrounded k = .finite .positive k 0 hk := by
    intro k hk
    rw [Scalar.unrounded, dif_neg (by omega), UnpackedFloat.finite.injEq]
    exact ⟨if_neg (by omega), rfl, rfl⟩
  have hdiv : Stands .positive (UnpackedFloat.div .binary64 (Scalar.unrounded m)
      (Scalar.unrounded n)) (nearest (m / n)) := by
    rw [hunrounded hn]
    rcases Nat.eq_zero_or_pos m with rfl | hm
    · rw [Nat.cast_zero (R := ℝ), zero_div, nearest_zero]
      exact .zero
    · have hcore := stands_divCore .positive hm hn 0 0
      rw [zpow_zero, mul_one, mul_one] at hcore
      rw [hunrounded hm]
      exact hcore
  exact (hdiv.unpack_pack h).unpack_pack h

theorem At.standing_eq (h : At x r) :
    x.toModel.unpack ≠ .notANumber ∧ standing x.toModel.unpack = (r : ℝ) := by
  rw [At] at h
  generalize x.toModel.unpack = u at h
  cases h with
  | zero => exact ⟨fun h => UnpackedFloat.noConfusion h, rfl⟩
  | finite h hm he hfull => exact ⟨fun h => UnpackedFloat.noConfusion h, rfl⟩

/-- Numbers are in the order **in which they stand**. -/
theorem At.lt_iff (hx : At x r) (hy : At y t) : Scalar.lt x y = true ↔ r < t := by
  obtain ⟨hx, hr⟩ := hx.standing_eq
  obtain ⟨hy, ht⟩ := hy.standing_eq
  rw [CoEmbed.Floating.lt_iff, ne_notANumber_iff, ne_notANumber_iff, hr, ht, EReal.coe_lt_coe_iff]
  exact ⟨fun h => h.2.2, fun h => ⟨hx, hy, h⟩⟩

theorem At.le_iff (hx : At x r) (hy : At y t) : Scalar.le x y = true ↔ r ≤ t := by
  obtain ⟨hx, hr⟩ := hx.standing_eq
  obtain ⟨hy, ht⟩ := hy.standing_eq
  rw [CoEmbed.Floating.le_iff, hr, ht, EReal.coe_le_coe_iff]
  exact ⟨fun h => h.2.2, fun h => ⟨hx, hy, h⟩⟩

theorem At.eq_iff (hx : At x r) (hy : At y t) : Scalar.eq x y = true ↔ r = t := by
  have heq : Scalar.eq x y = true ↔ x.toModel.unpack.compare y.toModel.unpack = some .eq := by
    change x.toModel.unpack.beq y.toModel.unpack = true ↔ _
    rw [UnpackedFloat.beq, beq_iff_eq]
  have hform := fun x : Float => (reads_ofFloat x).inForm
  obtain ⟨hnan, hr⟩ := hx.standing_eq
  obtain ⟨hnan', ht⟩ := hy.standing_eq
  rw [heq, compare_standing (hform x) (hform y) hnan hnan', hr, ht, Option.some_inj,
    compare_eq_iff_eq, EReal.coe_eq_coe_iff]

/-- Such a number is **finite**. -/
theorem At.exceptional?_eq_none (h : At x r) : Scalar.exceptional? x = none := by
  rw [exceptional?_eq]
  rw [At] at h
  generalize x.toModel.unpack = u at h
  cases h <;> rfl

theorem At.unique (h : At x r) (h' : At x t) : r = t :=
  EReal.coe_injective (h.standing_eq.2.symm.trans h'.standing_eq.2)

end

end Floating

end CoEmbed
