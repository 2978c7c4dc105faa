import CoEmbed.Proofs.Exact.Scalar
import CoEmbed.Proofs.Ranking.Hits

/-!
# The Gain of a Ranking

In exact arithmetic the gain of a ranking is a sum over the ranks at which held-out keys stand, and
a rank is worth the less the further down it is. So of all sets of so many ranks the first ones are
worth most, and they alone.

* `discount_pos`, `strictAnti_discount` — what a hit at a rank is worth.
* `sum_le_sum_range`, `sum_lt_sum_range` — the first places are worth most.
* `IsHit`, `hitRanks` — the ranks at which held-out keys stand.
* `total_gain`, `card_hitRanks` — the gain of a ranking, and the number of its hits.
* `card_hitRanks_le`, `card_hitRanks_le_distinct` — how many hits there can be.
* `ndcgAt_eq` — the gain of a ranking relative to the best one.

## Rank convention

Ranks are counted from zero. A key that is recommended twice is hit at both of its ranks.
-/

namespace CoEmbed

/-! ### The worth of a rank -/

theorem discount_real (rank : ℕ) : (discount rank : ℝ) = 1 / Real.logb 2 (rank + 2) := by
  have hrank : ((rank + 2 : ℕ) : ℝ) = rank + 2 := by push_cast; rfl
  rw [← hrank]
  rfl

theorem logb_rank_pos (rank : ℕ) : 0 < Real.logb 2 ((rank : ℝ) + 2) :=
  Real.logb_pos one_lt_two (by have := Nat.cast_nonneg (α := ℝ) rank; linarith)

/-- A hit is worth **something**. -/
theorem discount_pos (rank : ℕ) : 0 < (discount rank : ℝ) := by
  rw [discount_real]
  exact one_div_pos.2 (logb_rank_pos rank)

/-- A hit is worth **the less** the further down it is. -/
theorem strictAnti_discount : StrictAnti (discount : ℕ → ℝ) := by
  intro a b hab
  rw [discount_real, discount_real]
  refine one_div_lt_one_div_of_lt (logb_rank_pos a) (Real.logb_lt_logb one_lt_two ?_ ?_)
  · positivity
  · exact add_lt_add_left (Nat.cast_lt.2 hab) 2

/-! ### The first places -/

section

variable {f : ℕ → ℝ} {S : Finset ℕ} {m : ℕ}

/-- No other places are worth **as much as the first ones**: each place that is left out is worth
more than any that is taken instead. -/
theorem sum_lt_sum_range (hf : StrictAnti f) (hpos : ∀ r, 0 < f r) (hcard : S.card ≤ m)
    (hne : S ≠ Finset.range m) : ∑ r ∈ S, f r < ∑ r ∈ Finset.range m, f r := by
  let out := Finset.range m \ S
  let instead := S \ Finset.range m
  have hout : out.Nonempty := by
    rw [Finset.sdiff_nonempty]
    intro hsub
    refine hne (Finset.eq_of_subset_of_card_le hsub ?_).symm
    rwa [Finset.card_range]
  have hfewer : instead.card ≤ out.card := by
    rw [Finset.card_sdiff_le_card_sdiff_iff, Finset.card_range]
    exact hcard
  have hinstead : ∑ r ∈ instead, f r ≤ instead.card • f m := by
    refine Finset.sum_le_card_nsmul _ _ _ fun r hr => hf.antitone ?_
    exact not_lt.1 fun h => (Finset.mem_sdiff.1 hr).2 (Finset.mem_range.2 h)
  have hbetter : out.card • f m < ∑ r ∈ out, f r := by
    rw [← Finset.sum_const]
    refine Finset.sum_lt_sum_of_nonempty hout fun r hr => hf ?_
    exact Finset.mem_range.1 (Finset.mem_sdiff.1 hr).1
  have hstep : instead.card • f m ≤ out.card • f m := nsmul_le_nsmul_left (hpos m).le hfewer
  have hlt : ∑ r ∈ instead, f r < ∑ r ∈ out, f r := hinstead.trans_lt (hstep.trans_lt hbetter)
  exact Finset.sum_sdiff_lt_sum_sdiff.1 hlt

/-- The first places are worth **at least as much** as any others. -/
theorem sum_le_sum_range (hf : StrictAnti f) (hpos : ∀ r, 0 < f r) (hcard : S.card ≤ m) :
    ∑ r ∈ S, f r ≤ ∑ r ∈ Finset.range m, f r := by
  by_cases hne : S = Finset.range m
  · rw [hne]
  · exact (sum_lt_sum_range hf hpos hcard hne).le

end

/-! ### Hits -/

/-- A held-out key stands **at a rank**. -/
def IsHit (recommended heldOut : List Key) (rank : ℕ) : Prop :=
  ∃ x, recommended[rank]? = some x ∧ x ∈ heldOut

instance (recommended heldOut : List Key) (rank : ℕ) : Decidable (IsHit recommended heldOut rank) :=
  decidable_of_iff ((recommended[rank]?).any fun x => decide (x ∈ heldOut)) (by
    simp only [Option.any_eq_true, decide_eq_true_eq, IsHit])

/-- The ranks up to a cut-off **at which held-out keys stand**. -/
def hitRanks (recommended heldOut : List Key) (n : ℕ) : Finset ℕ :=
  {rank ∈ Finset.range n | IsHit recommended heldOut rank}

theorem mem_hitRanks {recommended heldOut : List Key} {n rank : ℕ} :
    rank ∈ hitRanks recommended heldOut n ↔ rank < n ∧ IsHit recommended heldOut rank := by
  rw [hitRanks, Finset.mem_filter, Finset.mem_range]

/-- A sum over the hits of a ranking is what **its first key** adds, and the sum over the others. -/
theorem sum_hitRanks_cons {M : Type*} [AddCommMonoid M] (f : ℕ → M) (x : Key)
    (xs heldOut : List Key) (n : ℕ) :
    ∑ rank ∈ hitRanks (x :: xs) heldOut (n + 1), f rank
      = (if x ∈ heldOut then f 0 else 0) + ∑ rank ∈ hitRanks xs heldOut n, f (rank + 1) := by
  have hfirst : IsHit (x :: xs) heldOut 0 ↔ x ∈ heldOut := by simp [IsHit]
  have hlater : ∀ rank, IsHit (x :: xs) heldOut (rank + 1) ↔ IsHit xs heldOut rank :=
    fun rank => Iff.rfl
  rw [hitRanks, hitRanks, Finset.sum_filter, Finset.sum_filter, Finset.sum_range_succ', add_comm]
  simp only [hfirst, hlater]

theorem hitRanks_nil (heldOut : List Key) (n : ℕ) : hitRanks [] heldOut n = ∅ :=
  Finset.filter_eq_empty_iff.2 fun rank _ ⟨x, hx, _⟩ => by cases hx

/-- The gain of a ranking is **the worth of its hits**. -/
theorem total_gain (recommended heldOut : List Key) (n : ℕ) :
    Scalar.total (gainFrom heldOut 0 (recommended.take n) : List ℝ)
      = ∑ rank ∈ hitRanks recommended heldOut n, discount rank := by
  have key : ∀ first, (gainFrom heldOut first (recommended.take n) : List ℝ).sum
      = ∑ rank ∈ hitRanks recommended heldOut n, discount (first + rank) := by
    induction n generalizing recommended with
    | zero =>
        intro first
        rw [List.take_zero, hitRanks, Finset.range_zero, Finset.filter_empty, Finset.sum_empty]
        rfl
    | succ n ih =>
        intro first
        cases recommended with
        | nil =>
            rw [List.take_nil, hitRanks_nil, Finset.sum_empty]
            rfl
        | cons x xs =>
            have hrest : ∑ rank ∈ hitRanks xs heldOut n, (discount (first + (rank + 1)) : ℝ)
                = (gainFrom heldOut (first + 1) (xs.take n) : List ℝ).sum := by
              rw [ih xs (first + 1)]
              exact Finset.sum_congr rfl fun rank _ => congrArg discount (by omega)
            rw [List.take_succ_cons, gainFrom, sum_hitRanks_cons, hrest]
            split
            · rw [List.sum_cons, add_zero]
            · rw [zero_add]
  rw [Scalar.total_real, key 0]
  simp only [zero_add]

/-- The hits of a ranking are **the ranks of its held-out keys**, as often as they are repeated. -/
theorem card_hitRanks (recommended heldOut : List Key) (n : ℕ) :
    (hitRanks recommended heldOut n).card
      = ((recommended.take n).filter fun x => decide (x ∈ heldOut)).length := by
  rw [Finset.card_eq_sum_ones]
  induction n generalizing recommended with
  | zero => rfl
  | succ n ih =>
      cases recommended with
      | nil => rw [List.take_nil, hitRanks_nil]; rfl
      | cons x xs =>
          rw [sum_hitRanks_cons, ih, List.take_succ_cons, List.filter_cons]
          by_cases hx : x ∈ heldOut
          · rw [if_pos hx, if_pos (decide_eq_true hx), List.length_cons, add_comm]
          · rw [if_neg hx, if_neg (mt of_decide_eq_true hx), zero_add]

/-- There are no more hits than **ranks**. -/
theorem card_hitRanks_le (recommended heldOut : List Key) (n : ℕ) :
    (hitRanks recommended heldOut n).card ≤ n :=
  (Finset.card_filter_le _ _).trans_eq (Finset.card_range n)

/-- There are no more hits than **different held-out keys**, if none of these is repeated. -/
theorem card_hitRanks_le_distinct {recommended heldOut : List Key} {n : ℕ}
    (h : ((recommended.take n).filter fun x => decide (x ∈ heldOut)).Nodup) :
    (hitRanks recommended heldOut n).card ≤ (distinct heldOut).length := by
  rw [card_hitRanks]
  refine (h.subperm fun x hx => ?_).length_le
  exact mem_distinct.2 (of_decide_eq_true (List.mem_filter.1 hx).2)

/-! ### Relative gains -/

/-- The ideal gain is that of **the first ranks**. -/
theorem idealGain_real (count : ℕ) :
    (idealGain count : ℝ) = ∑ rank ∈ Finset.range count, discount rank := by
  rw [idealGain, Scalar.total_real]
  rfl

/-- The relative gain **divides** what the hits are worth by what the first ranks are worth. -/
theorem ndcgAt_eq (recommended heldOut : List Key) (n : ℕ) :
    (ndcgAt recommended heldOut n : ℝ)
      = (∑ rank ∈ hitRanks recommended heldOut n, discount rank)
        / ∑ rank ∈ Finset.range (min (distinct heldOut).length n), discount rank := by
  rw [← idealGain_real, ← total_gain, ndcgAt, upTo_natCast, Int.toNat_natCast]
  split
  · next hzero => rw [Scalar.eq_real.1 hzero, div_zero]
  · rfl

/-- Ranks are worth something **together** if there are any. -/
theorem sum_discount_pos {m : ℕ} (hm : 0 < m) :
    0 < ∑ rank ∈ Finset.range m, (discount rank : ℝ) :=
  Finset.sum_pos (fun rank _ => discount_pos rank) (Finset.nonempty_range_iff.2 hm.ne')

end CoEmbed
