import CoEmbed.Proofs.Exact.Zeros
import CoEmbed.Proofs.Floating.Operations

/-!
# The Two Zeros

A floating point number may be one of two zeros. To add the positive one makes them the same, and
changes nothing else. No sum is the negative zero unless both of its terms are.

* `pack_unpack` — a number is what it is unpacked to.
* `Like` — what is unpacked to the same, or to zeros.
* `alike_iff`, `solid_iff` — the two zeros are alike, and the negative one is what zeros change.
* `Stands.unpack_pack_ne_zero`, `add_ne_negativeZero` — no number that is computed is rounded to the
  negative zero where it is a sum.
* The instance of `Scalar.FaintZeros` for floating point numbers.

## Underflow convention

A product or a quotient that is too small becomes a zero with its sign. A sum is never too small:
its last place is that of one of its terms.
-/

namespace CoEmbed

namespace Floating

open Float.Model UnpackedFloat
open Scalar (Alike Solid)

/-! ### Words -/

/-- A word is made of **its three parts**. -/
theorem packComponents_unpack (b : BitVec Format.binary64.numBits) :
    packComponents .binary64 (Sign.ofBitVec (unpackSign b)) (unpackExponent b) (unpackMantissa b)
      = b := by
  have hb : b.toNat < 2 ^ 64 := b.isLt
  have hm := toNat_unpackMantissa b
  have he := toNat_unpackExponent b
  have hsign : (Sign.ofBitVec (unpackSign b)).toBitVec.toNat = b.toNat / 2 ^ 63 := by
    rw [ofBitVec_unpackSign, signOf]
    by_cases h : 2 ^ 63 ≤ b.toNat
    · rw [decide_eq_true h, if_pos rfl]
      change 1 = _
      omega
    · rw [decide_eq_false h, if_neg Bool.false_ne_true]
      change 0 = _
      omega
  have hhead : ((Sign.ofBitVec (unpackSign b)).toBitVec ++ unpackExponent b).toNat
      = b.toNat / 2 ^ 63 * 2 ^ 11 + b.toNat / 2 ^ 52 % 2 ^ 11 := by
    rw [BitVec.toNat_append, ← Nat.shiftLeft_add_eq_or_of_lt (unpackExponent b).isLt, hsign, he,
      Nat.shiftLeft_eq]
  refine BitVec.eq_of_toNat_eq ?_
  rw [packComponents, BitVec.toNat_append,
    ← Nat.shiftLeft_add_eq_or_of_lt (unpackMantissa b).isLt, hhead, hm, Nat.shiftLeft_eq]
  change (b.toNat / 2 ^ 63 * 2 ^ 11 + b.toNat / 2 ^ 52 % 2 ^ 11) * 2 ^ 52 + b.toNat % 2 ^ 52
    = b.toNat
  omega

/-- A word is what it is **unpacked to**: there is one word only for what is no number. -/
theorem pack_unpack_word {b : BitVec Format.binary64.numBits} (hvalid : Format.binary64.Valid b) :
    UnpackedFloat.pack .binary64 (UnpackedFloat.unpack .binary64 b) = b := by
  have hword := packComponents_unpack b
  have hm : (unpackMantissa b).toNat < 2 ^ 52 := (unpackMantissa b).isLt
  have he : (unpackExponent b).toNat < 2 ^ 11 := (unpackExponent b).isLt
  rw [UnpackedFloat.unpack]
  dsimp only
  split
  · next htop =>
      split
      · next hzero =>
          rw [htop, hzero] at hword
          exact hword
      · next hne => exact (hvalid.eq_packedNaN htop hne).symm
  · next htop =>
      split
      · next hbottom =>
          rw [hbottom] at hword
          split
          · next hzero =>
              rw [hzero] at hword
              exact hword
          · next hne =>
              have hpos : 0 < (unpackMantissa b).toNat :=
                Nat.pos_of_ne_zero fun hzero => hne (BitVec.eq_of_toNat_eq hzero)
              rw [hbottom]
              refine (pack_least _ hpos hm).trans ?_
              rw [BitVec.ofNat_toNat, BitVec.setWidth_eq]
              exact hword
      · next hbottom =>
          have hlow : (unpackExponent b).toNat ≠ 0 := fun h =>
            hbottom (BitVec.eq_of_toNat_eq h)
          have hhigh : (unpackExponent b).toNat ≠ 2 ^ 11 - 1 := fun h =>
            htop (BitVec.eq_of_toNat_eq h)
          have hfull : (1#1 ++ unpackMantissa b).toNat = 2 ^ 52 + (unpackMantissa b).toNat :=
            toNat_one_append _
          have hmantissa : BitVec.ofNat 52 (1#1 ++ unpackMantissa b).toNat = unpackMantissa b := by
            refine BitVec.eq_of_toNat_eq ?_
            rw [BitVec.toNat_ofNat, hfull]
            omega
          have hlt : (unpackExponent b).toNat < 2047 := by omega
          refine (pack_full _ _ (by omega) (by omega) ?_ hlt).trans ?_
          · change ((unpackExponent b).toNat : ℤ)
              = (unpackExponent b).toNat - ((1023 : ℕ) + (52 : ℕ)) + 1075
            omega
          · rw [hmantissa, BitVec.ofNat_toNat, BitVec.setWidth_eq]
            exact hword

/-- A number is what it is **unpacked to**. -/
theorem pack_unpack (x : Float) : Float.Model.pack x.toModel.unpack = x.toModel :=
  (Float.Model.mk.injEq ..).mpr (congrArg UInt64.ofBitVec (pack_unpack_word x.toModel.valid))

/-- What is added up to is **not rounded to zero**. -/
theorem Stands.unpack_pack_ne_zero {s : Sign} {u : UnpackedFloat} {r : ℝ} (h : Stands s u r)
    (hr : 0 < r) (t : Sign) : (Float.Model.pack u).unpack ≠ .zero t := by
  rcases lt_or_ge r (2 ^ 1024) with hlt | hge
  · have hunpack := h.unpack_pack hlt
    generalize (Float.Model.pack u).unpack = v at hunpack
    cases hunpack with
    | zero => exact absurd hr (lt_irrefl 0)
    | finite => nofun
  · rw [h.unpack_pack_infinity hge]
    nofun

/-! ### Zeros -/

/-- What is unpacked to **the same, or to zeros**. -/
def Like (u v : UnpackedFloat) : Prop := u = v ∨ ∃ s t, u = .zero s ∧ v = .zero t

theorem Like.refl (u : UnpackedFloat) : Like u u := .inl rfl

/-- The number **made positive**, if it is a zero. -/
def settled : UnpackedFloat → UnpackedFloat
  | .zero _ => .zero .positive
  | u => u

theorem settled_eq_iff {u v : UnpackedFloat} : settled u = settled v ↔ Like u v := by
  constructor
  · intro h
    cases u <;> cases v <;> first
      | exact .inl h
      | exact .inr ⟨_, _, rfl, rfl⟩
      | cases h
  · rintro (rfl | ⟨s, t, rfl, rfl⟩) <;> rfl

theorem settled_ne_negativeZero (u : UnpackedFloat) : settled u ≠ .zero .negative := by
  cases u <;> nofun

theorem settled_eq_self_iff {u : UnpackedFloat} : settled u = u ↔ u ≠ .zero .negative := by
  cases u with
  | zero s => cases s <;> simp [settled]
  | _ => simp [settled]

/-- Adding zero **makes a zero positive**, and changes nothing else. -/
theorem unpack_add_zero (x : Float) : (x + 0).toModel.unpack = settled x.toModel.unpack := by
  change (Float.Model.pack (UnpackedFloat.add .binary64 x.toModel.unpack (.zero .positive))).unpack
    = _
  have hpack := congrArg Float.Model.unpack (pack_unpack x)
  generalize x.toModel.unpack = u at hpack
  cases u with
  | zero s => cases s <;> rfl
  | _ => exact hpack

theorem unpack_injective {x y : Float} (h : x.toModel.unpack = y.toModel.unpack) : x = y := by
  have hmodel : x.toModel = y.toModel := by rw [← pack_unpack x, ← pack_unpack y, h]
  cases x
  cases y
  exact congrArg Float.ofModel hmodel

/-- Numbers are alike if they are **the same, or both zeros**. -/
theorem alike_iff {x y : Float} : Alike x y ↔ Like x.toModel.unpack y.toModel.unpack := by
  rw [← settled_eq_iff, ← unpack_add_zero, ← unpack_add_zero]
  exact ⟨fun h => congrArg (fun z : Float => z.toModel.unpack) h, unpack_injective⟩

/-- What zeros change is **the negative zero**. -/
theorem solid_iff {x : Float} : Solid x ↔ x.toModel.unpack ≠ .zero .negative := by
  rw [← settled_eq_self_iff, ← unpack_add_zero]
  exact ⟨fun h => congrArg (fun z : Float => z.toModel.unpack) h, unpack_injective⟩

/-- Numbers that are packed from **the same, or from zeros**, are alike. -/
theorem Like.alike {u v : UnpackedFloat} (h : Like u v) {x y : Float}
    (hx : x.toModel = Float.Model.pack u) (hy : y.toModel = Float.Model.pack v) : Alike x y := by
  rw [alike_iff, hx, hy]
  rcases h with rfl | ⟨s, t, rfl, rfl⟩
  · exact .refl _
  · cases s <;> cases t <;> exact .inr ⟨_, _, rfl, rfl⟩

/-! ### Operations on zeros -/

section

variable {u u' v v' : UnpackedFloat}

theorem Like.add (u : UnpackedFloat) (h : Like v v') :
    Like (UnpackedFloat.add .binary64 u v) (UnpackedFloat.add .binary64 u v') := by
  rcases h with rfl | ⟨s, t, rfl, rfl⟩
  · exact .refl _
  · cases u with
    | zero r => cases r <;> cases s <;> cases t <;> exact .inr ⟨_, _, rfl, rfl⟩
    | _ => exact .refl _

/-- What is added to a number that is not the negative zero is **just the same**. -/
theorem Like.add_eq (hu : u ≠ .zero .negative) (h : Like v v') :
    UnpackedFloat.add .binary64 u v = UnpackedFloat.add .binary64 u v' := by
  rcases h with rfl | ⟨s, t, rfl, rfl⟩
  · rfl
  · cases u with
    | zero r =>
        cases r with
        | negative => exact absurd rfl hu
        | positive => cases s <;> cases t <;> rfl
    | _ => rfl

theorem Like.sub (h : Like u u') (h' : Like v v') :
    Like (UnpackedFloat.sub .binary64 u v) (UnpackedFloat.sub .binary64 u' v') := by
  have hsecond : ∀ u,
      Like (UnpackedFloat.sub .binary64 u v) (UnpackedFloat.sub .binary64 u v') := by
    intro u
    rcases h' with rfl | ⟨s, t, rfl, rfl⟩
    · exact .refl _
    · cases u with
      | zero r => cases r <;> cases s <;> cases t <;> exact .inr ⟨_, _, rfl, rfl⟩
      | _ => exact .refl _
  rcases h with rfl | ⟨s, t, rfl, rfl⟩
  · exact hsecond _
  · rcases h' with rfl | ⟨r, r', rfl, rfl⟩
    · cases v with
      | zero r => cases s <;> cases t <;> cases r <;> exact .inr ⟨_, _, rfl, rfl⟩
      | _ => exact .refl _
    · cases s <;> cases t <;> cases r <;> cases r' <;> exact .inr ⟨_, _, rfl, rfl⟩

theorem Like.mul (h : Like u u') (h' : Like v v') :
    Like (UnpackedFloat.mul .binary64 u v) (UnpackedFloat.mul .binary64 u' v') := by
  rcases h with rfl | ⟨s, t, rfl, rfl⟩
  · rcases h' with rfl | ⟨r, r', rfl, rfl⟩
    · exact .refl _
    · cases u <;> first
        | exact .refl _
        | exact .inr ⟨_, _, rfl, rfl⟩
  · rcases h' with rfl | ⟨r, r', rfl, rfl⟩
    · cases v <;> first
        | exact .refl _
        | exact .inr ⟨_, _, rfl, rfl⟩
    · exact .inr ⟨_, _, rfl, rfl⟩

theorem Like.div (v : UnpackedFloat) (h : Like u u') :
    Like (UnpackedFloat.div .binary64 u v) (UnpackedFloat.div .binary64 u' v) := by
  rcases h with rfl | ⟨s, t, rfl, rfl⟩
  · exact .refl _
  · cases v <;> first
      | exact .refl _
      | exact .inr ⟨_, _, rfl, rfl⟩

theorem Like.compare_eq (u : UnpackedFloat) (h : Like v v') : u.compare v = u.compare v' := by
  rcases h with rfl | ⟨s, t, rfl, rfl⟩
  · rfl
  · cases u with
    | infinity r => cases r <;> rfl
    | finite r m e hm => cases r <;> rfl
    | _ => rfl

end

/-- A sum of two finite numbers is **not the negative zero**, whatever their signs: a difference
that is zero is the positive one, and another is not rounded to zero. -/
theorem unpack_pack_normalize_ne (n : ℤ) {e : ℤ} (he : -1074 ≤ e) :
    (Float.Model.pack (UnpackedFloat.normalize .binary64 n e .positive)).unpack
      ≠ .zero .negative := by
  rw [UnpackedFloat.normalize]
  have hround : ∀ s {k : ℕ}, 0 < k →
      (Float.Model.pack (UnpackedFloat.round .binary64 s k e)).unpack ≠ .zero .negative := by
    intro s k hk
    have hnonneg : (0 : ℝ) ≤ k * 2 ^ e := mul_nonneg (Nat.cast_nonneg k) (zpow_pos two_pos e).le
    refine (stands_round s hk e).unpack_pack_ne_zero ((nearest_pos_iff hnonneg).2 ?_) _
    calc (2 : ℝ) ^ (-1075 : ℤ) < 2 ^ e := zpow_lt_zpow_right₀ one_lt_two (by omega)
      _ ≤ k * 2 ^ e := le_mul_of_one_le_left (zpow_pos two_pos e).le (by exact_mod_cast hk)
  split
  · next h => exact hround _ (by have := compare_lt_iff_lt.1 h; omega)
  · intro h
    cases h
  · next h => exact hround _ (by have := compare_gt_iff_gt.1 h; omega)

/-- What is not finite, or zero, is packed **as it is**. -/
theorem unpack_pack_of_ne_finite {u : UnpackedFloat} (h : ∀ s m e hm, u ≠ .finite s m e hm) :
    (Float.Model.pack u).unpack = u := by
  cases u with
  | notANumber => rfl
  | infinity s => cases s <;> rfl
  | zero s => cases s <;> rfl
  | finite s m e hm => exact absurd rfl (h s m e hm)

/-- A sum is **not the negative zero**, if its first term is not. -/
theorem solid_add {x : Float} (hx : Solid x) (y : Float) : Solid (x + y) := by
  rw [solid_iff] at hx ⊢
  change (Float.Model.pack (UnpackedFloat.add .binary64 x.toModel.unpack y.toModel.unpack)).unpack
    ≠ _
  have hpackx := congrArg Float.Model.unpack (pack_unpack x)
  have hpacky := congrArg Float.Model.unpack (pack_unpack y)
  have hreadsx := (reads_ofFloat x).inForm
  have hreadsy := (reads_ofFloat y).inForm
  generalize x.toModel.unpack = u at hx hpackx hreadsx
  generalize y.toModel.unpack = v at hpacky hreadsy
  have hkeep : ∀ w : UnpackedFloat, (Float.Model.pack w).unpack = w → w ≠ .zero .negative →
      (Float.Model.pack w).unpack ≠ .zero .negative := fun w h hw => h.trans_ne hw
  cases u with
  | notANumber => exact hkeep .notANumber rfl nofun
  | infinity s =>
      cases v with
      | infinity t =>
          cases s <;> cases t
          · exact hkeep (.infinity .negative) rfl nofun
          · exact hkeep .notANumber rfl nofun
          · exact hkeep .notANumber rfl nofun
          · exact hkeep (.infinity .positive) rfl nofun
      | notANumber => exact hkeep .notANumber rfl nofun
      | _ => exact hkeep (.infinity s) (unpack_pack_of_ne_finite nofun) nofun
  | zero s =>
      cases s with
      | negative => exact absurd rfl hx
      | positive =>
          cases v with
          | zero t => cases t <;> exact hkeep (.zero .positive) rfl nofun
          | _ => exact hkeep _ hpacky nofun
  | finite s m e hm =>
      cases v with
      | notANumber => exact hkeep .notANumber rfl nofun
      | infinity t => exact hkeep (.infinity t) (unpack_pack_of_ne_finite nofun) nofun
      | zero t => exact hkeep _ hpackx nofun
      | finite t n d hn => exact unpack_pack_normalize_ne _ (le_min hreadsx.least hreadsy.least)

/-- The zeros of floating point arithmetic **are hardly told apart**. -/
instance : Scalar.FaintZeros Float where
  solid_zero := solid_iff.2 nofun
  solid_add_zero x := solid_iff.2 fun h =>
    settled_ne_negativeZero x.toModel.unpack ((unpack_add_zero x).symm.trans h)
  solid_add y hx := CoEmbed.Floating.solid_add hx y
  solid_of_pos {x} h := by
    rw [solid_iff]
    intro hx
    have hcompare := (lt_iff_compare 0 x).1 h
    rw [hx] at hcompare
    cases hcompare
  add_eq {x y z} hx h := by
    refine unpack_injective (congrArg (fun u => (Float.Model.pack u).unpack) ?_)
    exact Like.add_eq (solid_iff.1 hx) (alike_iff.1 h)
  add x _ _ h := (Like.add x.toModel.unpack (alike_iff.1 h)).alike rfl rfl
  sub h h' := ((alike_iff.1 h).sub (alike_iff.1 h')).alike rfl rfl
  mul h h' := ((alike_iff.1 h).mul (alike_iff.1 h')).alike rfl rfl
  div z h := ((alike_iff.1 h).div z.toModel.unpack).alike rfl rfl
  lt_eq {x y} h := by
    rw [Bool.eq_iff_iff, lt_iff_compare, lt_iff_compare, (alike_iff.1 h).compare_eq]
  finite_eq {x y} h := by
    rw [Scalar.finite, Scalar.finite, exceptional?_eq, exceptional?_eq]
    rcases alike_iff.1 h with heq | ⟨s, t, hx, hy⟩
    · rw [heq]
    · rw [hx, hy]

end Floating

end CoEmbed
