import Mathlib.Analysis.SpecialFunctions.Pow.Real
import Mathlib.Data.Int.Log

/-!
# Rounding to the Nearest

A real with more digits than a significand has places is rounded to the nearest that fits, and to
the one with the even significand if there are two.

* `roundEven` — the nearest whole number.
* `place`, `significand`, `nearest` — where the last place of a real is, and what the real is
  rounded to there.
* `nearest_mono`, `nearest_eq_self`, `abs_nearest_sub_le` — rounding keeps the order, leaves alone
  what fits, and is off by half a place at most.
* `nearest_pos_iff` — what is rounded to zero.

## Magnitude convention

Rounding looks at magnitudes. Nothing is said here about reals below zero, and none is too large to
be rounded.
-/

namespace CoEmbed

namespace Floating

/-! ### Rounding to whole numbers -/

/-- The **nearest whole number**, the even one if there are two. -/
noncomputable def roundEven (x : ℝ) : ℕ :=
  if x - ⌊x⌋₊ < ⌊x⌋₊ + 1 - x then ⌊x⌋₊
  else if x - ⌊x⌋₊ = ⌊x⌋₊ + 1 - x then ⌊x⌋₊ + ⌊x⌋₊ % 2
  else ⌊x⌋₊ + 1

/-- What is nearest is decided **half way** between two whole numbers. -/
theorem roundEven_eq (x : ℝ) :
    roundEven x = if x < ⌊x⌋₊ + 1 / 2 then ⌊x⌋₊
      else if x = ⌊x⌋₊ + 1 / 2 then ⌊x⌋₊ + ⌊x⌋₊ % 2 else ⌊x⌋₊ + 1 := by
  have hlt : x - ⌊x⌋₊ < ⌊x⌋₊ + 1 - x ↔ x < ⌊x⌋₊ + 1 / 2 := by
    constructor <;> intro h <;> linarith
  have heq : x - ⌊x⌋₊ = ⌊x⌋₊ + 1 - x ↔ x = ⌊x⌋₊ + 1 / 2 := by
    constructor <;> intro h <;> linarith
  simp only [roundEven, hlt, heq]

/-- Rounding is off **by one half at most**, and by one half at even numbers alone. -/
theorem abs_roundEven_sub_le {x : ℝ} (hx : 0 ≤ x) :
    |(roundEven x : ℝ) - x| ≤ 1 / 2 ∧ (|(roundEven x : ℝ) - x| = 1 / 2 → roundEven x % 2 = 0) := by
  have hlow := Nat.floor_le hx
  have hhigh := Nat.lt_floor_add_one x
  rw [roundEven_eq]
  generalize ⌊x⌋₊ = m at *
  split_ifs with hlt heq
  · rw [abs_of_nonpos (by linarith)]
    exact ⟨by linarith, fun h => by linarith⟩
  · rcases Nat.mod_two_eq_zero_or_one m with hm | hm
    · rw [hm, add_zero, heq, sub_add_cancel_left, abs_neg, abs_of_pos (by norm_num)]
      exact ⟨le_rfl, fun _ => hm⟩
    · rw [hm, heq, Nat.cast_add, Nat.cast_one, add_sub_add_left_eq_sub]
      refine ⟨by norm_num, fun _ => ?_⟩
      omega
  · have hgt : (m : ℝ) + 1 / 2 < x := lt_of_le_of_ne (not_lt.1 hlt) (Ne.symm heq)
    rw [Nat.cast_add, Nat.cast_one, abs_of_pos (by linarith)]
    exact ⟨by linarith, fun h => by linarith⟩

theorem roundEven_natCast (n : ℕ) : roundEven n = n := by
  rw [roundEven_eq, Nat.floor_natCast, if_pos (by linarith)]

/-- Rounding **keeps the order**. -/
theorem roundEven_mono {x y : ℝ} (hx : 0 ≤ x) (h : x ≤ y) : roundEven x ≤ roundEven y := by
  by_contra! hlt
  obtain ⟨hx₁, hxeven⟩ := abs_roundEven_sub_le hx
  obtain ⟨hy₁, hyeven⟩ := abs_roundEven_sub_le (hx.trans h)
  have hstep : (roundEven y : ℝ) + 1 ≤ roundEven x := by exact_mod_cast hlt
  have hx₂ := abs_le.1 hx₁
  have hy₂ := abs_le.1 hy₁
  -- then both are half way between the same two numbers, which are not both even
  have hxhalf : (roundEven x : ℝ) - x = 1 / 2 := by linarith
  have hyhalf : (roundEven y : ℝ) - y = -(1 / 2) := by linarith
  have hsucc : roundEven x = roundEven y + 1 := by
    have hcast : (roundEven x : ℝ) = (roundEven y + 1 : ℕ) := by
      push_cast
      linarith
    exact_mod_cast hcast
  have hxzero := hxeven (by rw [hxhalf]; norm_num)
  have hyzero := hyeven (by rw [hyhalf]; norm_num)
  omega

/-! ### Rounding to a place -/

/-- Where the **last place** of a number is: its first digit is 52 places before it, unless the
least place there is stands before. -/
noncomputable def place (x : ℝ) : ℤ := max (Int.log 2 x - 52) (-1074)

/-- How many **units of its last place** a number is rounded to. -/
noncomputable def significand (x : ℝ) : ℕ := roundEven (x / (2 : ℕ) ^ place x)

/-- What a number is **rounded to**. -/
noncomputable def nearest (x : ℝ) : ℝ := significand x * (2 : ℕ) ^ place x

theorem significand_eq_roundEven (x : ℝ) : significand x = roundEven (x / 2 ^ place x) := by
  rw [significand, Nat.cast_ofNat]

theorem nearest_eq_mul (x : ℝ) : nearest x = significand x * 2 ^ place x := by
  rw [nearest, Nat.cast_ofNat]

theorem neg_le_place (x : ℝ) : -1074 ≤ place x := le_max_right _ _

theorem lt_zpow_place (x : ℝ) : x < 2 ^ (place x + 53) := by
  have hlog : x < (2 : ℕ) ^ (Int.log 2 x + 1) := Int.lt_zpow_succ_log_self one_lt_two x
  rw [Nat.cast_ofNat] at hlog
  refine hlog.trans_le (zpow_le_zpow_right₀ one_le_two ?_)
  have := le_max_left (Int.log 2 x - 52) (-1074)
  rw [place]
  omega

/-- A number fills its places, **unless its last place is the least** there is. -/
theorem zpow_place_le {x : ℝ} (hx : 0 < x) : 2 ^ (place x + 52) ≤ x ∨ place x = -1074 := by
  rw [place]
  rcases max_cases (Int.log 2 x - 52) (-1074) with ⟨hmax, -⟩ | ⟨hmax, -⟩
  · left
    have hlog : ((2 : ℕ) : ℝ) ^ Int.log 2 x ≤ x := Int.zpow_log_le_self one_lt_two hx
    rwa [hmax, sub_add_cancel, ← Nat.cast_ofNat]
  · exact .inr hmax

/-- The last place is the one at which a number **fills its places**. -/
theorem place_eq {x : ℝ} {e : ℤ} (hx : 0 < x) (he : -1074 ≤ e) (hlt : x < 2 ^ (e + 53))
    (hle : 2 ^ (e + 52) ≤ x ∨ e = -1074) : place x = e := by
  have hlog : Int.log 2 x < e + 53 := by
    rw [← Nat.cast_ofNat] at hlt
    exact (Int.lt_zpow_iff_log_lt one_lt_two hx).1 hlt
  rw [place]
  rcases hle with hle | rfl
  · have hlog' : e + 52 ≤ Int.log 2 x := by
      rw [← Nat.cast_ofNat] at hle
      exact (Int.zpow_le_iff_le_log one_lt_two hx).1 hle
    omega
  · omega

theorem place_mono {x y : ℝ} (hx : 0 < x) (h : x ≤ y) : place x ≤ place y :=
  max_le_max_right _ (sub_le_sub_right (Int.log_mono_right hx h) _)

/-- There are **no more units** than places, but for a carry. -/
theorem significand_le {x : ℝ} (hx : 0 ≤ x) : significand x ≤ 2 ^ 53 := by
  have hpow : (0 : ℝ) < 2 ^ place x := zpow_pos two_pos _
  have hle : x / 2 ^ place x ≤ (2 ^ 53 : ℕ) := by
    rw [div_le_iff₀ hpow, Nat.cast_pow, Nat.cast_ofNat, ← zpow_natCast, ← zpow_add₀ two_ne_zero,
      add_comm]
    exact (lt_zpow_place x).le
  rw [significand_eq_roundEven]
  exact (roundEven_mono (div_nonneg hx hpow.le) hle).trans (roundEven_natCast _).le

/-- The units **fill the places**, unless the last of these is the least there is. -/
theorem le_significand {x : ℝ} (hx : 0 < x) : 2 ^ 52 ≤ significand x ∨ place x = -1074 := by
  refine (zpow_place_le hx).imp_left fun hfull => ?_
  have hle : ((2 ^ 52 : ℕ) : ℝ) ≤ x / 2 ^ place x := by
    rw [le_div_iff₀ (zpow_pos two_pos _), Nat.cast_pow, Nat.cast_ofNat, ← zpow_natCast,
      ← zpow_add₀ two_ne_zero, add_comm]
    exact hfull
  rw [significand_eq_roundEven]
  exact (roundEven_natCast _).ge.trans (roundEven_mono (Nat.cast_nonneg _) hle)

theorem nearest_nonneg (x : ℝ) : 0 ≤ nearest x := by
  rw [nearest_eq_mul]
  exact mul_nonneg (Nat.cast_nonneg _) (zpow_pos two_pos _).le

/-- What **fits** is left alone. -/
theorem nearest_eq_self {x : ℝ} {k : ℕ} {e : ℤ} (hx : x = k * 2 ^ e) (he : place x ≤ e) :
    nearest x = x := by
  obtain ⟨j, hj⟩ := Int.eq_ofNat_of_zero_le (sub_nonneg.2 he)
  have hquotient : x / 2 ^ place x = ((k * 2 ^ j : ℕ) : ℝ) := by
    rw [div_eq_iff (zpow_pos two_pos _).ne', Nat.cast_mul, Nat.cast_pow, Nat.cast_ofNat,
      ← zpow_natCast, mul_assoc, ← zpow_add₀ two_ne_zero, ← hj, sub_add_cancel]
    exact hx
  rw [nearest_eq_mul, significand_eq_roundEven, hquotient, roundEven_natCast, ← hquotient,
    div_mul_cancel₀]
  exact (zpow_pos two_pos _).ne'

theorem nearest_zero : nearest 0 = 0 := by
  rw [nearest_eq_mul, significand_eq_roundEven, zero_div, ← Nat.cast_zero, roundEven_natCast,
    Nat.cast_zero, zero_mul]

/-- Numbers with few digits **fit**, unless these are behind the least place. -/
theorem nearest_natCast_mul_zpow {n : ℕ} (hn : n < 2 ^ 53) {e : ℤ} (he : -1074 ≤ e) :
    nearest (n * 2 ^ e) = n * 2 ^ e := by
  rcases Nat.eq_zero_or_pos n with rfl | hpos
  · rw [Nat.cast_zero, zero_mul, nearest_zero]
  · refine nearest_eq_self rfl ?_
    have hlog : Int.log 2 ((n : ℝ) * 2 ^ e) < 53 + e := by
      refine (Int.lt_zpow_iff_log_lt one_lt_two (by positivity)).1 ?_
      rw [Nat.cast_ofNat, zpow_add₀ two_ne_zero]
      refine mul_lt_mul_of_pos_right ?_ (zpow_pos two_pos e)
      exact_mod_cast hn
    rw [place]
    omega

theorem nearest_natCast_mul {n : ℕ} (hn : n < 2 ^ 53) (j : ℕ) :
    nearest (n * 2 ^ j) = n * 2 ^ j := by
  have h := nearest_natCast_mul_zpow hn (e := j) (by omega)
  rwa [zpow_natCast] at h

/-- Whole numbers with few digits **fit**. -/
theorem nearest_natCast {n : ℕ} (hn : n < 2 ^ 53) : nearest n = n := by
  have h := nearest_natCast_mul hn 0
  rwa [pow_zero, mul_one] at h

theorem nearest_one : nearest 1 = 1 := by
  have h := nearest_natCast (n := 1) (by norm_num)
  rwa [Nat.cast_one] at h

/-- Rounding **keeps the order**. -/
theorem nearest_mono {x y : ℝ} (hx : 0 ≤ x) (h : x ≤ y) : nearest x ≤ nearest y := by
  rcases hx.eq_or_lt with rfl | hpos
  · rw [nearest_zero]
    exact nearest_nonneg y
  have hpow : ∀ e : ℤ, (0 : ℝ) < 2 ^ e := fun e => zpow_pos two_pos e
  rcases (place_mono hpos h).eq_or_lt with heq | hlt
  · rw [nearest_eq_mul, nearest_eq_mul, significand_eq_roundEven, significand_eq_roundEven, heq]
    refine mul_le_mul_of_nonneg_right (Nat.cast_le.2 ?_) (hpow _).le
    exact roundEven_mono (div_nonneg hx (hpow _).le) (div_le_div_of_nonneg_right h (hpow _).le)
  · -- a number of the next place lies between
    have hy : 2 ^ 52 ≤ significand y :=
      (le_significand (hpos.trans_le h)).resolve_right (by have := neg_le_place x; omega)
    rw [nearest_eq_mul, nearest_eq_mul]
    calc (significand x : ℝ) * 2 ^ place x ≤ (2 ^ 53 : ℕ) * 2 ^ place x :=
          mul_le_mul_of_nonneg_right (Nat.cast_le.2 (significand_le hx)) (hpow _).le
      _ = (2 ^ 52 : ℕ) * 2 ^ (place x + 1) := by
          rw [zpow_add₀ two_ne_zero]
          push_cast
          ring
      _ ≤ (2 ^ 52 : ℕ) * 2 ^ place y := by
          gcongr
          · exact one_le_two
          · omega
      _ ≤ significand y * 2 ^ place y := mul_le_mul_of_nonneg_right (Nat.cast_le.2 hy) (hpow _).le

/-- Rounding does not lead **past one**. -/
theorem nearest_le_one {x : ℝ} (hx : 0 ≤ x) (h : x ≤ 1) : nearest x ≤ 1 :=
  (nearest_mono hx h).trans_eq nearest_one

/-- What is rounded to zero is **no more than half** the least number above it. -/
theorem nearest_pos_iff {x : ℝ} (hx : 0 ≤ x) : 0 < nearest x ↔ 2 ^ (-1075 : ℤ) < x := by
  have hhalf : (2 : ℝ) ^ (-1075 : ℤ) = 1 / 2 * 2 ^ (-1074 : ℤ) := by
    rw [one_div, ← zpow_neg_one, ← zpow_add₀ two_ne_zero]
    norm_num
  constructor
  · refine fun hpos => lt_of_not_ge fun hle => hpos.not_ge ((nearest_mono hx hle).trans_eq ?_)
    -- half the least number is as near to zero, which is even
    have hplace : place (2 ^ (-1075 : ℤ)) = -1074 :=
      place_eq (zpow_pos two_pos _) le_rfl (zpow_lt_zpow_right₀ one_lt_two (by norm_num)) (.inr rfl)
    have hfloor : ⌊(1 / 2 : ℝ)⌋₊ = 0 := Nat.floor_eq_zero.2 (by norm_num)
    rw [nearest_eq_mul, significand_eq_roundEven, hplace, hhalf,
      mul_div_cancel_right₀ _ (zpow_pos two_pos _).ne', roundEven_eq, hfloor, Nat.cast_zero,
      zero_add, if_neg (lt_irrefl _), if_pos rfl, Nat.zero_mod, Nat.cast_zero, zero_mul]
  · intro hlt
    have hpos : 0 < x := (zpow_pos two_pos _).trans hlt
    rw [nearest_eq_mul]
    refine mul_pos (Nat.cast_pos.2 (Nat.pos_of_ne_zero fun hzero => ?_)) (zpow_pos two_pos _)
    have hleast : place x = -1074 :=
      (le_significand hpos).resolve_left (by rw [hzero]; norm_num)
    have hscaled : 0 ≤ x / 2 ^ place x := div_nonneg hx (zpow_pos two_pos _).le
    have hoff := (abs_roundEven_sub_le hscaled).1
    rw [← significand_eq_roundEven, hzero, Nat.cast_zero, zero_sub, abs_neg,
      abs_of_nonneg hscaled, hleast, div_le_iff₀ (zpow_pos two_pos _), ← hhalf] at hoff
    exact hoff.not_gt hlt

/-- Rounding is off by **half a unit** of the last of 53 places, or of the least place there is. -/
theorem abs_nearest_sub_le {x : ℝ} (hx : 0 ≤ x) :
    |nearest x - x| ≤ max (x / 2 ^ 53) (2 ^ (-1075 : ℤ)) := by
  rcases hx.eq_or_lt with rfl | hpos
  · rw [nearest_zero, sub_zero, abs_zero, zero_div]
    exact le_max_left _ _
  have hpow : (0 : ℝ) < 2 ^ place x := zpow_pos two_pos _
  have hscale : nearest x - x = (roundEven (x / 2 ^ place x) - x / 2 ^ place x) * 2 ^ place x := by
    rw [sub_mul, div_mul_cancel₀ _ hpow.ne', nearest_eq_mul, significand_eq_roundEven]
  have hhalf : ∀ e : ℤ, (2 : ℝ) ^ (e - 1) = 1 / 2 * 2 ^ e := fun e => by
    rw [zpow_sub_one₀ two_ne_zero, mul_comm, one_div]
  have hoff : |nearest x - x| ≤ 2 ^ (place x - 1) := by
    rw [hscale, abs_mul, abs_of_pos hpow, hhalf]
    exact mul_le_mul_of_nonneg_right (abs_roundEven_sub_le (div_nonneg hx hpow.le)).1 hpow.le
  refine hoff.trans ?_
  rcases zpow_place_le hpos with hfull | hleast
  · refine le_max_of_le_left ((le_div_iff₀ (by positivity)).2 (le_of_eq_of_le ?_ hfull))
    rw [← zpow_natCast, ← zpow_add₀ two_ne_zero]
    congr 1
    push_cast
    ring
  · rw [hleast]
    exact le_max_right _ _

end Floating

end CoEmbed
