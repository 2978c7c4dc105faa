import CoEmbed.Proofs.Exact.Bowl
import CoEmbed.Proofs.Sides

/-!
# Losses with One Minimum

An update claims that a loss is least at what it puts in place, and nowhere else. The losses of
this library are computations that might be refused, so the claim has two parts: the loss is
granted wherever it is compared, and every other place has strictly more.

* `UniqueMinimum` — a loss that might be refused has its one minimum over a set at a point.
* `UniqueMinimum.of_bowl` — the bottom of a bowl is one.
* `IsBest` — a fit is none where there is nothing to fit, and otherwise such a point.
* `IsQuadratic.uniqueMinimum_iff` — a quadratic loss has one exactly at the solution of a positive
  definite system.
* `sum_lt_sum_of_bowls` — bowls that are added up have their one minimum at all bottoms together.
* `isQuadratic_scoreError`, `isQuadratic_slice` — the error of one vector against a whole table.

## Multiplicity convention

A key may be listed more than once, and may be listed without a vector. The system and the loss
count it alike: `k` mentions of a key exchange its error `k` times, and strangers add nothing.
-/

open Matrix

namespace CoEmbed

/-! ### Minima -/

/-- A loss that might be refused has its **one minimum** over `S` at `x₀`: it is granted
everywhere in `S`, and everywhere but at `x₀` it is strictly larger. -/
structure UniqueMinimum {σ : Type*} (f : σ → Except Fault ℝ) (S : Set σ) (x₀ : σ) : Prop where
  mem : x₀ ∈ S
  lt : ∃ a, f x₀ = .ok a ∧ ∀ x ∈ S, x ≠ x₀ → ∃ b, f x = .ok b ∧ a < b

/-- Wherever a loss with one minimum is compared, the minimum has **strictly less**. -/
theorem UniqueMinimum.lt_of_eq_ok {σ : Type*} {f : σ → Except Fault ℝ} {S : Set σ} {x₀ x : σ}
    {a b : ℝ} (h : UniqueMinimum f S x₀) (ha : f x₀ = .ok a) (hx : x ∈ S) (hne : x ≠ x₀)
    (hb : f x = .ok b) : a < b := by
  obtain ⟨a', ha', hlt⟩ := h.lt
  obtain ⟨b', hb', hab⟩ := hlt x hx hne
  rw [ha] at ha'
  rw [hb] at hb'
  obtain rfl := Except.ok.inj ha'
  obtain rfl := Except.ok.inj hb'
  exact hab

/-- What a fit that might have nothing to go by **returns at best**: none where there is nothing to
fit, and otherwise the one minimum of a loss. -/
structure IsBest (fits : Prop) (f : ℝ → Except Fault ℝ) (o : Option ℝ) : Prop where
  eq_none_iff : o = none ↔ ¬ fits
  least : ∀ b, o = some b → UniqueMinimum f Set.univ b

theorem IsBest.exists_eq_some {fits : Prop} {f : ℝ → Except Fault ℝ} {o : Option ℝ}
    (h : IsBest fits f o) (hfits : fits) : ∃ b, o = some b ∧ UniqueMinimum f Set.univ b := by
  obtain ⟨b, hb⟩ := Option.ne_none_iff_exists'.1 fun hnone => h.eq_none_iff.1 hnone hfits
  exact ⟨b, hb, h.least b hb⟩

section

variable {E : Type*} [NormedAddCommGroup E] [NormedSpace ℝ E]

/-- A loss that is a **bowl** in what it is computed from has its one minimum at the bottom. -/
theorem UniqueMinimum.of_bowl {σ : Type*} {f : σ → Except Fault ℝ} {J : E → ℝ} {φ : σ → E}
    {x₀ : σ} (hφ : Function.Injective φ) (hf : ∀ x, f x = .ok (J (φ x))) (h : Bowl J (φ x₀)) :
    UniqueMinimum f Set.univ x₀ :=
  ⟨Set.mem_univ x₀, J (φ x₀), hf x₀, fun x _ hx => ⟨J (φ x), hf x, h.lt (hφ.ne hx)⟩⟩

/-- **Bowls that are added up**, each with a variable of its own, are least at all bottoms
together and nowhere else. -/
theorem sum_lt_sum_of_bowls {ι : Type*} {s : Finset ι} {q : ι → E → ℝ} {x₀ x : ι → E}
    (h : ∀ k ∈ s, Bowl (q k) (x₀ k)) (hne : ∃ k ∈ s, x k ≠ x₀ k) :
    ∑ k ∈ s, q k (x₀ k) < ∑ k ∈ s, q k (x k) := by
  obtain ⟨k, hk, hx⟩ := hne
  exact Finset.sum_lt_sum (fun j hj => (h j hj).le (x j)) ⟨k, hk, (h k hk).lt hx⟩

end

/-! ### Quadratic losses -/

variable {n : ℕ}

namespace IsQuadratic

variable {J : (Fin n → ℝ) → ℝ} {A : Matrix (Fin n) (Fin n) ℝ} {b x₀ : Fin n → ℝ}

/-- A quadratic function that has **one least point** has a positive definite matrix: it grows
along each direction and along its opposite. -/
theorem posDef_of_lt (hJ : IsQuadratic J A b) (hA : A.IsSymm) (h : ∀ x, x ≠ x₀ → J x₀ < J x) :
    A.PosDef := by
  obtain ⟨c, hc⟩ := hJ
  have hswap : ∀ x y : Fin n → ℝ, x ⬝ᵥ A *ᵥ y = y ⬝ᵥ A *ᵥ x := fun x y => by
    rw [dotProduct_mulVec, ← mulVec_transpose, hA, dotProduct_comm]
  -- what `x₀ + d` and `x₀ - d` have more than `x₀` adds up to twice the form at `d`
  have hgrow : ∀ d, J (x₀ + d) + J (x₀ - d) = 2 * J x₀ + 2 * (d ⬝ᵥ A *ᵥ d) := fun d => by
    rw [hc, hc, hc]
    simp only [mulVec_add, mulVec_sub, add_dotProduct, sub_dotProduct, dotProduct_add,
      dotProduct_sub, hswap d x₀]
    ring
  refine PosDef.of_dotProduct_mulVec_pos (isHermitian_of_isSymm hA) fun d hd => ?_
  have hplus := h (x₀ + d) fun heq => hd (add_eq_left.1 heq)
  have hminus := h (x₀ - d) fun heq => hd (sub_eq_self.1 heq)
  rw [star_trivial]
  linarith [hgrow d]

/-- A quadratic loss of a vector has its one minimum **at the solution of its system**, and has one
only if its matrix is positive definite. -/
theorem uniqueMinimum_iff {f : Vec ℝ n → Except Fault ℝ} {v : Vec ℝ n} (hJ : IsQuadratic J A b)
    (hA : A.IsSymm) (hf : ∀ x, f x = .ok (J x.coords)) :
    UniqueMinimum f Set.univ v ↔ A.PosDef ∧ A *ᵥ v.coords = b := by
  constructor
  · intro h
    have hleast : ∀ x, x ≠ v.coords → J v.coords < J x := fun x hx => by
      rw [← Vec.coords_ofCoords x] at hx ⊢
      exact h.lt_of_eq_ok (hf v) (Set.mem_univ _) (ne_of_apply_ne Vec.coords hx) (hf _)
    have hpos := hJ.posDef_of_lt hA hleast
    obtain ⟨w, hw⟩ := exists_mulVec_eq hpos b
    refine ⟨hpos, ?_⟩
    by_contra hne
    -- two least points would each have less than the other
    have hvw : v.coords ≠ w.coords := fun heq => hne (heq ▸ hw)
    exact lt_asymm (hleast _ hvw.symm) ((hJ.bowl hpos hw).lt hvw)
  · rintro ⟨hpos, heq⟩
    exact .of_bowl Vec.coords_injective hf (hJ.bowl hpos heq)

end IsQuadratic

/-! ### One vector against a table -/

/-- The error of a score is a **parabola**: each observed value exchanges one confidence for the
other. -/
theorem scoreError_eq (c₀ c₁ : ℝ) (vs : List ℝ) (x : ℝ) :
    scoreError c₀ c₁ vs x
      = (c₀ + vs.length * (c₁ - c₀)) * x ^ 2 - 2 * (vs.sum * c₁) * x
        + c₁ * (vs.map fun v => v ^ 2).sum := by
  induction vs with
  | nil => simp [scoreError]
  | cons v vs ih =>
      rw [scoreError] at ih ⊢
      simp only [List.map_cons, List.sum_cons, List.length_cons, Nat.cast_add, Nat.cast_one]
      linear_combination ih

/-- The error of a score, as a function of **one of the two vectors**. -/
theorem isQuadratic_scoreError (c₀ c₁ : ℝ) (vs : List ℝ) (v : Fin n → ℝ) :
    IsQuadratic (fun x => scoreError c₀ c₁ vs (x ⬝ᵥ v))
      ((c₀ + vs.length * (c₁ - c₀)) • outer v) ((vs.sum * c₁) • v) := by
  simp only [scoreError_eq]
  exact isQuadratic_parabola _ _ _ v

/-- The error of one vector **against a whole table**, some keys of which are observed with the
value one, and a ridge on the vector. -/
theorem isQuadratic_slice (W : Factors ℝ n) (ks : List Key) (c₀ c₁ ridge : ℝ) :
    IsQuadratic
      (fun x => ∑ k ∈ W.domain,
          scoreError c₀ c₁ (weightsOf (asFeatures ks 1) k) (x ⬝ᵥ W.vectorAt k)
        + ridge * (x ⬝ᵥ x))
      (observedMatrix W ks c₀ c₁ ridge) (observedTarget W ks c₁) := by
  have hscores := IsQuadratic.sum W.domain fun k _ =>
    isQuadratic_scoreError c₀ c₁ (weightsOf (asFeatures ks (1 : ℝ)) k) (W.vectorAt k)
  have hslice := hscores.add (IsQuadratic.normSq.smul ridge)
  simp only [weightsOf_asFeatures, List.length_replicate, List.sum_replicate, nsmul_eq_mul,
    mul_one, smul_zero, add_zero] at hslice
  simp only [weightsOf_asFeatures]
  exact hslice

/-- Where an observed pair is trusted **no less than the others**, the matrix of the preferences is
positive definite, however often a key is listed. -/
theorem posDef_observedMatrix_of_le (W : Factors ℝ n) (ks : List Key) {c₀ c₁ ridge : ℝ}
    (hc₀ : 0 ≤ c₀) (hc : c₀ ≤ c₁) (hridge : 0 < ridge) :
    (observedMatrix W ks c₀ c₁ ridge).PosDef := by
  refine posDef_observedMatrix_of_nonneg W (fun k => ?_) hridge
  exact add_nonneg hc₀ (mul_nonneg (Nat.cast_nonneg _) (sub_nonneg.2 hc))

end CoEmbed
