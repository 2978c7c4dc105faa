import CoEmbed.Proofs.Exact.Scalar
import CoEmbed.Ranking.Auc

/-!
# Pairs of Scores

In exact arithmetic any two scores can be compared, so each pair of a wanted and an unwanted item is
worth a point to one side, or half a point to both. The area under the curve is what the pairs are
worth to the wanted side on average, and its laws are those of a sum over pairs.

* `worth` — what a pair is worth to the first of its scores.
* `points`, `wins_add_ties` — what all pairs are worth together.
* `points_add_points`, `points_append`, `points_perm`, `points_map` — the laws of the sum.
* `auc_eq` — the average over all pairs.
* `auc_laws` — the range of the area under the curve, and what changes of the scores do to it.

## Side convention

The points of a list of scores are its own; the other side of the comparison takes the rest.
-/

namespace CoEmbed

/-! ### Single pairs -/

/-- What a pair is worth to **the first of its scores**: a point if it is higher, half a point if
it is the same. -/
noncomputable def worth (p n : ℝ) : ℝ := if n < p then 1 else if p = n then Scalar.half else 0

theorem worth_eq (p n : ℝ) : worth p n = if n < p then 1 else if p = n then 1 / 2 else 0 := by
  rw [worth, Scalar.half, Scalar.ratio, Scalar.ofNat_real, Scalar.ofNat_real, Nat.cast_one,
    Nat.cast_ofNat]

/-- The two sides of a pair **share a point**. -/
theorem worth_add_worth (p n : ℝ) : worth p n + worth n p = 1 := by
  rw [worth_eq, worth_eq]
  rcases lt_trichotomy n p with h | rfl | h
  · rw [if_pos h, if_neg h.not_gt, if_neg h.ne, add_zero]
  · rw [if_neg (lt_irrefl n), if_pos rfl, add_halves]
  · rw [if_neg h.not_gt, if_neg h.ne, if_pos h, zero_add]

theorem worth_nonneg (p n : ℝ) : 0 ≤ worth p n := by
  rw [worth_eq]
  split
  · exact zero_le_one
  · split
    · exact one_half_pos.le
    · exact le_rfl

/-- A pair is worth the same after its scores have been **sent up** by one function. -/
theorem worth_map {f : ℝ → ℝ} {S : Set ℝ} (hf : StrictMonoOn f S) {p n : ℝ} (hp : p ∈ S)
    (hn : n ∈ S) : worth (f p) (f n) = worth p n := by
  rw [worth, worth]
  exact if_congr (hf.lt_iff_lt hn hp) rfl (if_congr (hf.injOn.eq_iff hp hn) rfl rfl)

/-! ### All pairs -/

/-- What all pairs **are worth together** to the first list of scores. -/
noncomputable def points (positive negative : List ℝ) : ℝ :=
  (positive.map fun p => (negative.map (worth p)).sum).sum

variable {positive negative : List ℝ}

theorem points_cons (p : ℝ) (positive negative : List ℝ) :
    points (p :: positive) negative = (negative.map (worth p)).sum + points positive negative :=
  List.sum_cons

/-- A score has the points of **the scores below it, and half of those that equal it**. -/
theorem sum_worth (p : ℝ) (negative : List ℝ) :
    (negative.map (worth p)).sum = (negative.filter fun n => Scalar.lt n p).length
      + (1 / 2) * (negative.filter fun n => Scalar.eq p n).length := by
  induction negative with
  | nil => simp
  | cons n negative ih =>
      rw [List.map_cons, List.sum_cons, ih, worth_eq, List.filter_cons, List.filter_cons]
      simp only [Scalar.lt_real, Scalar.eq_real]
      rcases lt_trichotomy n p with h | rfl | h
      · rw [if_pos h, if_pos h, if_neg h.ne', List.length_cons]
        push_cast
        ring
      · rw [if_neg (lt_irrefl n), if_pos rfl, if_neg (lt_irrefl n), if_pos rfl, List.length_cons]
        push_cast
        ring
      · rw [if_neg h.not_gt, if_neg h.ne, if_neg h.not_gt, if_neg h.ne, zero_add]

/-- The points are **the pairs that are won, and half of those that are tied**. -/
theorem wins_add_ties (positive negative : List ℝ) :
    (wins positive negative : ℝ) + (1 / 2) * ties positive negative = points positive negative := by
  induction positive with
  | nil => simp [wins, ties, points]
  | cons p positive ih =>
      rw [points_cons, sum_worth, ← ih, wins, wins, ties, ties, List.flatMap_cons,
        List.flatMap_cons, List.length_append, List.length_append]
      push_cast
      ring

theorem points_nonneg (positive negative : List ℝ) : 0 ≤ points positive negative := by
  refine List.sum_nonneg fun x hx => ?_
  obtain ⟨p, -, rfl⟩ := List.mem_map.1 hx
  refine List.sum_nonneg fun y hy => ?_
  obtain ⟨n, -, rfl⟩ := List.mem_map.1 hy
  exact worth_nonneg p n

/-- **Every pair is shared**: what is not won by one side is won by the other. -/
theorem points_add_points (positive negative : List ℝ) :
    points positive negative + points negative positive = positive.length * negative.length := by
  induction positive with
  | nil => simp [points]
  | cons p positive ih =>
      have hother : points negative (p :: positive)
          = (negative.map fun n => worth n p).sum + points negative positive :=
        List.sum_map_add
      have hshare : (negative.map (worth p)).sum + (negative.map fun n => worth n p).sum
          = negative.length := by
        rw [← List.sum_map_add]
        simp only [worth_add_worth, List.map_const', List.sum_replicate, nsmul_eq_mul, mul_one]
      calc points (p :: positive) negative + points negative (p :: positive)
          = ((negative.map (worth p)).sum + (negative.map fun n => worth n p).sum)
            + (points positive negative + points negative positive) := by
              rw [points_cons, hother]
              ring
        _ = (p :: positive).length * negative.length := by
              rw [hshare, ih, List.length_cons]
              push_cast
              ring

/-- Two groups of scores have **the points of both**. -/
theorem points_append (positive more negative : List ℝ) :
    points (positive ++ more) negative = points positive negative + points more negative := by
  rw [points, List.map_append, List.sum_append]
  rfl

/-- The points do not depend on **the order** of the scores. -/
theorem points_perm {positive' negative' : List ℝ} (hpos : positive'.Perm positive)
    (hneg : negative'.Perm negative) : points positive' negative' = points positive negative := by
  have hinner : ∀ p, (negative'.map (worth p)).sum = (negative.map (worth p)).sum :=
    fun p => (hneg.map _).sum_eq
  rw [points, points]
  simp only [hinner]
  exact (hpos.map _).sum_eq

/-- The points do not change when all scores are **sent up** by one function. -/
theorem points_map {f : ℝ → ℝ} (hf : StrictMonoOn f {x | x ∈ positive ∨ x ∈ negative}) :
    points (positive.map f) (negative.map f) = points positive negative := by
  rw [points, points, List.map_map]
  refine congrArg List.sum (List.map_congr_left fun p hp => ?_)
  rw [Function.comp_apply, List.map_map]
  exact congrArg List.sum (List.map_congr_left fun n hn => worth_map hf (.inl hp) (.inr hn))

/-! ### Averages -/

/-- The area under the curve is what a pair is worth **on average**. -/
theorem auc_eq (hpos : positive ≠ []) (hneg : negative ≠ []) :
    auc positive negative
      = some (points positive negative / (positive.length * negative.length)) := by
  have hempty : (positive.isEmpty || negative.isEmpty) = false :=
    Bool.or_eq_false_iff.2 ⟨List.isEmpty_eq_false_iff.2 hpos, List.isEmpty_eq_false_iff.2 hneg⟩
  rw [auc, hempty, if_neg Bool.false_ne_true, ← wins_add_ties, ← Nat.cast_mul]
  simp only [Scalar.ofNat_real, Scalar.half, Scalar.ratio, Nat.cast_one, Nat.cast_ofNat]

/-- **The area under the curve is an average over pairs.** Where there are scores on both sides it
lies between zero and one; with the sides exchanged it is what was missing to one; it depends
neither on the order of the scores nor on their scale; and that of two groups of positive scores is
the average of the areas of both, each weighted with its number of scores. -/
theorem auc_laws (hpos : positive ≠ []) (hneg : negative ≠ []) :
    ∃ a : ℝ, auc positive negative = some a ∧ a ∈ Set.Icc 0 1 ∧
      auc negative positive = some (1 - a) ∧
      (∀ positive' negative', positive'.Perm positive → negative'.Perm negative →
        auc positive' negative' = some a) ∧
      (∀ f : ℝ → ℝ, StrictMonoOn f {x | x ∈ positive ∨ x ∈ negative} →
        auc (positive.map f) (negative.map f) = some a) ∧
      ∀ more, more ≠ [] → ∃ b, auc more negative = some b ∧
        auc (positive ++ more) negative
          = some ((positive.length * a + more.length * b) / (positive.length + more.length)) := by
  have hlength : ∀ {xs : List ℝ}, xs ≠ [] → (0 : ℝ) < xs.length :=
    fun h => Nat.cast_pos.2 (List.length_pos_iff.2 h)
  have hpairs : (0 : ℝ) < positive.length * negative.length := mul_pos (hlength hpos) (hlength hneg)
  have hshared := points_add_points positive negative
  refine ⟨_, auc_eq hpos hneg, ⟨?_, ?_⟩, ?_, fun positive' negative' hp hn => ?_, fun f hf => ?_,
    fun more hmore => ⟨_, auc_eq hmore hneg, ?_⟩⟩
  · exact div_nonneg (points_nonneg _ _) hpairs.le
  · rw [div_le_one hpairs, ← hshared]
    exact le_add_of_nonneg_right (points_nonneg _ _)
  · rw [auc_eq hneg hpos, one_sub_div hpairs.ne', ← hshared, add_sub_cancel_left, hshared,
      mul_comm (positive.length : ℝ)]
  · have hpos' : positive' ≠ [] := fun h => hpos (h ▸ hp).nil_eq.symm
    have hneg' : negative' ≠ [] := fun h => hneg (h ▸ hn).nil_eq.symm
    rw [auc_eq hpos' hneg', points_perm hp hn, hp.length_eq, hn.length_eq]
  · rw [auc_eq (mt List.map_eq_nil_iff.1 hpos) (mt List.map_eq_nil_iff.1 hneg), points_map hf,
      List.length_map, List.length_map]
  · have hne := (hlength hpos).ne'
    have hne' := (hlength hmore).ne'
    have hne'' := (hlength hneg).ne'
    rw [auc_eq (mt List.append_eq_nil_iff.1 fun h => hpos h.1) hneg, points_append,
      List.length_append, Nat.cast_add]
    congr 1
    field_simp

/-- Two scores against two, with a tie among the pairs. They are listed the other way round, sent up
by the exponential function, and joined by a score that wins nothing. -/
theorem auc_laws_tied :
    let positive : List ℝ := [2, 1]
    let negative : List ℝ := [1, 0]
    positive ≠ [] ∧ negative ≠ [] ∧ auc positive negative = some (7 / 8) ∧
      auc negative positive = some (1 - 7 / 8) ∧ auc [1, 2] [0, 1] = some (7 / 8 : ℝ) ∧
      auc (positive.map Real.exp) (negative.map Real.exp) = some (7 / 8) ∧
      ∃ b, auc [0] negative = some b ∧
        auc (positive ++ [0]) negative = some ((2 * (7 / 8) + 1 * b) / (2 + 1)) := by
  intro positive negative
  have hpos : positive ≠ [] := List.cons_ne_nil _ _
  have hneg : negative ≠ [] := List.cons_ne_nil _ _
  have hvalue : auc positive negative = some (7 / 8) := by
    rw [auc_eq hpos hneg]
    norm_num [points, worth_eq, positive, negative]
  obtain ⟨a, ha, -, hother, horder, hscale, hgroups⟩ := auc_laws hpos hneg
  obtain rfl := Option.some.inj (hvalue.symm.trans ha)
  obtain ⟨b, hb, hjoined⟩ := hgroups [0] (List.cons_ne_nil _ _)
  refine ⟨hpos, hneg, hvalue, hother, horder _ _ (List.Perm.swap _ _ _) (List.Perm.swap _ _ _),
    hscale _ (Real.exp_strictMono.strictMonoOn _), b, hb, hjoined.trans ?_⟩
  simp [positive]

end CoEmbed
