import CoEmbed.Proofs.Exact.Order
import CoEmbed.Proofs.Floating.Line

/-!
# Floating Point Numbers in Order

Floating point numbers obey the laws of order that tests rely on. What is made of a whole number may
be rounded, or become infinite, but it keeps its sign.

* `HasSign` — a number with a sign, which is not one that is no number.
* `hasSign_ofNat` — what is made of a whole number has its sign.
* `le_iff` — comparisons that allow for equality.
* The instance of `Numeral.Ordered` for floating point numbers.

## Sign convention

A zero has a sign too, and the two zeros are equal.
-/

namespace CoEmbed

namespace Floating

open Float.Model UnpackedFloat

/-! ### Signs -/

/-- A number **with a sign**. -/
def HasSign (s : Sign) : UnpackedFloat → Prop
  | .zero t | .infinity t | .finite t .. => t = s
  | .notANumber => False

/-- Parts that do not make up a value that is no number **have the sign** that is packed with
them. -/
theorem hasSign_unpack_packComponents (s : Sign) {e : BitVec 11} {m : BitVec 52}
    (h : e ≠ -1#11 ∨ m = 0#52) :
    HasSign s (UnpackedFloat.unpack .binary64 (packComponents .binary64 s e m)) := by
  rw [UnpackedFloat.unpack]
  simp only [unpackExponent_packComponents, unpackMantissa_packComponents,
    ofBitVec_unpackSign_packComponents]
  split
  · next he =>
      rw [if_pos (h.resolve_left fun h => h he)]
      exact rfl
  · split
    · split <;> exact rfl
    · exact rfl

/-- What is packed **keeps its sign**. -/
theorem HasSign.unpack_pack {s : Sign} {u : UnpackedFloat} (h : HasSign s u) :
    HasSign s (Float.Model.pack u).unpack := by
  change HasSign s (UnpackedFloat.unpack .binary64 (UnpackedFloat.pack .binary64 u))
  cases u with
  | notANumber => cases h
  | infinity t =>
      obtain rfl : t = s := h
      exact hasSign_unpack_packComponents t (.inr rfl)
  | zero t =>
      obtain rfl : t = s := h
      exact hasSign_unpack_packComponents t (.inr rfl)
  | finite t m e hm =>
      obtain rfl : t = s := h
      rw [UnpackedFloat.pack]
      dsimp only
      split
      · exact hasSign_unpack_packComponents t (.inr rfl)
      · next hsmall =>
          split
          · refine hasSign_unpack_packComponents t (.inl fun htop => hsmall ?_)
            -- an exponent that fits is not the one of infinity
            have hbits := congrArg BitVec.toNat htop
            rw [BitVec.toNat_ofNat] at hbits
            change _ % 2048 = 2047 at hbits
            change 2048 ≤ _
            omega
          · exact hasSign_unpack_packComponents t (.inl (by decide))

/-- What is rounded **keeps its sign**. -/
theorem hasSign_roundWithAccuracy (s : Sign) (m : ℕ) (e : ℤ) (a : Accuracy) :
    HasSign s (roundWithAccuracy .binary64 s m e a) := by
  rw [roundWithAccuracy]
  dsimp only
  split <;> exact rfl

/-- A product of numbers that are not negative, one of them finite, **is not negative**. -/
theorem HasSign.mul {u : UnpackedFloat} (h : HasSign .positive u) (m : ℕ) (e : ℤ) (hm : 0 < m) :
    HasSign .positive (UnpackedFloat.mul .binary64 u (.finite .positive m e hm)) := by
  cases u with
  | notANumber => cases h
  | infinity t =>
      obtain rfl : t = .positive := h
      exact rfl
  | zero t =>
      obtain rfl : t = .positive := h
      exact rfl
  | finite t n d hn =>
      obtain rfl : t = .positive := h
      exact hasSign_roundWithAccuracy _ _ _ _

/-- What is made of a whole number **is not negative**. -/
theorem hasSign_ofNat (n : ℕ) : HasSign .positive (Float.ofNat n).toModel.unpack := by
  change HasSign .positive (Float.ofScientific n false 0).toModel.unpack
  rw [Float.ofScientific]
  split
  · have hone : (Float.exactlyRepresentablePowersOfTen[0]).toModel.unpack
        = .finite .positive (2 ^ 52) (-52) (by decide) := rfl
    have hword : HasSign .positive n.toUInt64.toFloat.toModel.unpack := by
      change HasSign .positive (Float.Model.pack
        (UnpackedFloat.normalize .binary64 (n.toUInt64.toNat : ℤ) 0 .positive)).unpack
      refine HasSign.unpack_pack ?_
      rw [UnpackedFloat.normalize]
      split
      · next h => exact absurd (compare_lt_iff_lt.1 h) (Int.natCast_nonneg _).not_gt
      · exact rfl
      · exact hasSign_roundWithAccuracy _ _ _ _
    change HasSign .positive (Float.Model.pack (UnpackedFloat.mul .binary64
      n.toUInt64.toFloat.toModel.unpack
      (Float.exactlyRepresentablePowersOfTen[0]).toModel.unpack)).unpack
    rw [hone]
    exact (hword.mul _ _ _).unpack_pack
  · change HasSign .positive (Float.Model.pack (UnpackedFloat.ofScientific .binary64 n 0)).unpack
    refine HasSign.unpack_pack ?_
    rw [UnpackedFloat.ofScientific]
    split
    · exact rfl
    · rw [if_neg (by decide)]
      split
      · exact rfl
      · rw [if_pos le_rfl, UnpackedFloat.mul]
        -- whatever the digits are, rounding does not touch the sign
        generalize n <<< Format.binary64.mantissaBits * 10 ^ Int.toNat 0 = m
        exact hasSign_roundWithAccuracy .positive m _ .exact

/-- What is made of a whole number that is negative **is negative**. -/
theorem hasSign_ofInt (n : ℕ) :
    HasSign .negative (Scalar.ofInt (.negSucc n) : Float).toModel.unpack := by
  change HasSign .negative (Float.Model.pack (Float.ofNat (n + 1)).toModel.unpack.neg).unpack
  refine HasSign.unpack_pack ?_
  have h := hasSign_ofNat (n + 1)
  cases hu : (Float.ofNat (n + 1)).toModel.unpack with
  | notANumber =>
      rw [hu] at h
      cases h
  | infinity t =>
      rw [hu] at h
      obtain rfl : t = .positive := h
      exact rfl
  | zero t =>
      rw [hu] at h
      obtain rfl : t = .positive := h
      exact rfl
  | finite t m e hm =>
      rw [hu] at h
      obtain rfl : t = .positive := h
      exact rfl

/-! ### Comparisons that allow for equality -/

/-- A number is not above another if it **does not stand above it**. -/
theorem le_iff (x y : Float) : Scalar.le x y = true ↔ x.toModel.unpack ≠ .notANumber ∧
    y.toModel.unpack ≠ .notANumber ∧ standing x.toModel.unpack ≤ standing y.toModel.unpack := by
  have heq : Scalar.eq x y = true ↔ x.toModel.unpack.compare y.toModel.unpack = some .eq := by
    change x.toModel.unpack.beq y.toModel.unpack = true ↔ _
    rw [UnpackedFloat.beq, beq_iff_eq]
  have hform := fun x : Float => (reads_ofFloat x).inForm
  rw [Scalar.le, Bool.or_eq_true, heq, lt_iff_compare]
  constructor
  · intro h
    have hx : x.toModel.unpack ≠ .notANumber := by
      intro hx
      rw [hx] at h
      rcases h with h | h <;> cases h
    have hy : y.toModel.unpack ≠ .notANumber := by
      intro hy
      rw [hy] at h
      cases hxu : x.toModel.unpack <;> rw [hxu] at h <;> rcases h with h | h <;> cases h
    rw [compare_standing (hform x) (hform y) hx hy] at h
    refine ⟨hx, hy, ?_⟩
    rcases h with h | h
    · exact (compare_lt_iff_lt.1 (Option.some.inj h)).le
    · exact (compare_eq_iff_eq.1 (Option.some.inj h)).le
  · rintro ⟨hx, hy, h⟩
    rw [compare_standing (hform x) (hform y) hx hy]
    rcases h.lt_or_eq with h | h
    · exact .inl (congrArg some (compare_lt_iff_lt.2 h))
    · exact .inr (congrArg some (compare_eq_iff_eq.2 h))

/-- Floating point numbers **obey the laws of order**. -/
instance : Numeral.Ordered Float where
  lt_of_lt_of_le {x y z} h h' := by
    obtain ⟨hx, -, h⟩ := (lt_iff x y).1 h
    obtain ⟨-, hz, h'⟩ := (le_iff y z).1 h'
    exact (lt_iff x z).2 ⟨hx, (ne_notANumber_iff z).2 hz, h.trans_le h'⟩
  lt_of_le_of_lt {x y z} h h' := by
    obtain ⟨hx, -, h⟩ := (le_iff x y).1 h
    obtain ⟨-, hz, h'⟩ := (lt_iff y z).1 h'
    exact (lt_iff x z).2 ⟨(ne_notANumber_iff x).2 hx, hz, h.trans_lt h'⟩
  zero_lt_one := by decide +kernel
  ofInt_le_zero {k} hk := by
    cases k with
    | ofNat n =>
        obtain rfl : n = 0 := Nat.le_zero.1 (Int.ofNat_le.1 hk)
        decide +kernel
    | negSucc n =>
        refine (le_iff _ _).2 ?_
        change _ ∧ UnpackedFloat.zero .positive ≠ .notANumber ∧ _ ≤ standing (.zero .positive)
        have h := hasSign_ofInt n
        cases hu : (Scalar.ofInt (.negSucc n) : Float).toModel.unpack with
        | notANumber =>
            rw [hu] at h
            cases h
        | infinity t =>
            rw [hu] at h
            obtain rfl : t = .negative := h
            exact ⟨nofun, nofun, bot_le⟩
        | zero t => exact ⟨nofun, nofun, le_rfl⟩
        | finite t m e hm =>
            rw [hu] at h
            obtain rfl : t = .negative := h
            exact ⟨nofun, nofun, EReal.coe_le_coe_iff.2 (neg_nonpos.2 (magnitude_pos hm e).le)⟩
  one_le_truncate {x} hx h := by
    obtain ⟨r, hr, htruncate, -⟩ := truncate_finite hx
    obtain ⟨hone, hvalue⟩ := Numeral.Valued.one (α := Float)
    have hle : (1 : ℝ) ≤ r := by
      refine not_lt.1 fun hlt => Bool.eq_false_iff.1 h (Numeral.Valued.lt_iff.2 ⟨?_, ?_, ?_⟩)
      · rw [hx]
        nofun
      · rw [hone]
        nofun
      · exact hr.trans_lt ((EReal.coe_lt_coe_iff.2 hlt).trans_eq hvalue.symm)
    rw [htruncate, towardZero, if_pos (zero_le_one.trans hle)]
    exact Int.le_floor.2 (by exact_mod_cast hle)

end Floating

end CoEmbed
