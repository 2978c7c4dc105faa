import CoEmbed.Proofs.Floating.Operations
import CoEmbed.Proofs.Ranking.Hits

/-!
# Metrics in Floating Point

Precision and recall are quotients of counts, and rounded once. Gains are running sums that are
rounded at each step; still, as rounding keeps the order, the gain of a ranking does not pass that
of a better one.

* `at_precisionAt`, `at_recallAt` — what precision and recall are rounded from.
* `at_foldl`, `at_mean` — running sums and means of numbers that are at most one.
* `Log2Sound` — what is relied upon of the logarithm.
* `Worths`, `Log2Sound.worths` — what a hit at a rank is worth.
* `Worths.foldl_le` — the first ranks are worth most.
* `hitList`, `gainFrom_eq`, `length_hitList_le` — the ranks that a gain is summed over.
* `at_ndcgAt` — the gain of a ranking relative to the best one.

## Size convention

Sums of fewer than 2⁵³ numbers that are at most one do not grow past the counts that are exact.
-/

namespace CoEmbed

namespace Floating

open Scalar (ofNat)

variable {recommended heldOut : List Key}

/-! ### Shares of hits -/

/-- A share is **at most one**, and so it does not become infinite. -/
theorem nearest_div_le_one {m n : ℕ} (h : m ≤ n) : nearest (m / n) ≤ 1 :=
  nearest_le_one (div_nonneg (Nat.cast_nonneg m) (Nat.cast_nonneg n))
    (div_le_one_of_le₀ (Nat.cast_le.2 h) (Nat.cast_nonneg n))

/-- A share is **not lost**, unless it is one of far too many. -/
theorem nearest_div_pos_iff {m n : ℕ} (h : m ≤ n) (hn : n < 2 ^ 1075) :
    0 < nearest (m / n) ↔ 0 < m := by
  rw [nearest_pos_iff (div_nonneg (Nat.cast_nonneg m) (Nat.cast_nonneg n))]
  constructor
  · refine fun hlt => Nat.pos_of_ne_zero ?_
    rintro rfl
    rw [Nat.cast_zero, zero_div] at hlt
    exact hlt.not_gt (zpow_pos two_pos _)
  · intro hm
    have hpos : (0 : ℝ) < n := Nat.cast_pos.2 (hm.trans_le h)
    have hone : (1 : ℝ) ≤ m := by exact_mod_cast hm
    have hlarge : (n : ℝ) < 2 ^ (1075 : ℤ) := by exact_mod_cast hn
    rw [lt_div_iff₀ hpos, zpow_neg, inv_mul_lt_iff₀ (zpow_pos two_pos _)]
    exact hlarge.trans_le (le_mul_of_one_le_right (zpow_pos two_pos _).le hone)

/-- As many times a share is what it is the share of, **up to rounding**. -/
theorem abs_nearest_div_mul_sub_le {m n : ℕ} (h : m ≤ n) :
    |nearest (m / n) * n - m| ≤ max ((m : ℝ) / 2 ^ 53) ((n : ℝ) / 2 ^ 1075) := by
  rcases Nat.eq_zero_or_pos n with rfl | hn
  · obtain rfl : m = 0 := Nat.le_zero.1 h
    rw [Nat.cast_zero, mul_zero, sub_zero, abs_zero, zero_div]
    exact le_max_left _ _
  have hpos : (0 : ℝ) < n := Nat.cast_pos.2 hn
  have hoff := abs_nearest_sub_le (div_nonneg (Nat.cast_nonneg m) hpos.le)
  calc |nearest (m / n) * n - m| = |nearest (m / n) - m / n| * n := by
        rw [← abs_of_pos hpos, ← abs_mul, abs_of_pos hpos, sub_mul, div_mul_cancel₀ _ hpos.ne']
    _ ≤ max ((m : ℝ) / n / 2 ^ 53) (2 ^ (-1075 : ℤ)) * n :=
        mul_le_mul_of_nonneg_right hoff hpos.le
    _ = max ((m : ℝ) / 2 ^ 53) ((n : ℝ) / 2 ^ 1075) := by
        have hlost : (2 : ℝ) ^ (-1075 : ℤ) * n = n / 2 ^ 1075 := by
          rw [zpow_neg, mul_comm, ← div_eq_mul_inv]
          norm_cast
        rw [max_mul_of_nonneg _ _ hpos.le, div_right_comm, div_mul_cancel₀ _ hpos.ne', hlost]

/-- Precision is **the share of the cut-off**, rounded once. -/
theorem at_precisionAt (recommended heldOut : List Key) {n : ℕ} (hn : 0 < n) :
    At (precisionAt recommended heldOut n) (nearest (hits recommended heldOut n / n)) := by
  have hle : hits recommended heldOut n ≤ n :=
    Int.ofNat_le.1 (hits_le_cutoff (Int.natCast_nonneg n))
  rw [precisionAt]
  split
  · next hempty =>
      rw [hits, List.isEmpty_iff.1 hempty]
      change At 0 (nearest ((0 : ℕ) / n))
      rw [Nat.cast_zero, zero_div, nearest_zero]
      exact at_zero
  · exact at_quotient hn ((nearest_div_le_one hle).trans_lt one_lt_limit)

/-- Recall is **the share of the held-out keys**, rounded once. -/
theorem at_recallAt (recommended heldOut : List Key) (k : ℤ) :
    At (recallAt recommended heldOut k)
      (nearest (hits recommended heldOut k / heldOut.length)) := by
  rw [recallAt]
  split
  · next hempty =>
      rw [List.isEmpty_iff.1 hempty, List.length_nil, Nat.cast_zero, div_zero, nearest_zero]
      exact at_zero
  · next hheld =>
      have hlength : 0 < heldOut.length := List.length_pos_iff.2 (mt List.isEmpty_iff.2 hheld)
      exact at_quotient hlength ((nearest_div_le_one hits_le_length).trans_lt one_lt_limit)

/-! ### Running sums -/

/-- A running sum of numbers below a power of two **does not fall**, and stays below as many times
that power. -/
theorem at_foldl {j : ℕ} (hj : j ≤ 900) {xs : List Float} (hxs : ∀ x ∈ xs, ∃ r ≤ 2 ^ j, At x r)
    {s : Float} {a : ℝ} {c : ℕ} (hs : At s a) (ha : a ≤ c * 2 ^ j) (hc : c + xs.length < 2 ^ 53) :
    ∃ t, At (xs.foldl (· + ·) s) t ∧ a ≤ t ∧ t ≤ (c + xs.length : ℕ) * 2 ^ j := by
  induction xs generalizing s a c with
  | nil => exact ⟨a, hs, le_rfl, ha⟩
  | cons x xs ih =>
      rw [List.length_cons] at hc
      obtain ⟨r, hr, hx⟩ := hxs x List.mem_cons_self
      have hle : a ≤ nearest (a + r) := by
        have hmono := nearest_mono hs.nonneg (le_add_of_nonneg_right hx.nonneg : a ≤ a + r)
        rwa [hs.nearest_eq] at hmono
      have hbound : nearest (a + r) ≤ (c + 1 : ℕ) * 2 ^ j := by
        rw [← nearest_natCast_mul (n := c + 1) (by omega)]
        refine nearest_mono (add_nonneg hs.nonneg hx.nonneg) ?_
        rw [Nat.cast_add, Nat.cast_one, add_one_mul]
        exact add_le_add ha hr
      have hlimit : ((c + 1 : ℕ) : ℝ) * 2 ^ j < 2 ^ 1024 := by
        have hsmall : c + 1 < 2 ^ 53 := by omega
        calc ((c + 1 : ℕ) : ℝ) * 2 ^ j < 2 ^ 53 * 2 ^ j :=
              mul_lt_mul_of_pos_right (by exact_mod_cast hsmall) (by positivity)
          _ = 2 ^ (53 + j) := (pow_add ..).symm
          _ ≤ 2 ^ 1024 := pow_le_pow_right₀ one_le_two (by omega)
      obtain ⟨t, ht, hat, htc⟩ := ih (fun y hy => hxs y (List.mem_cons_of_mem x hy))
        (hs.add hx (hbound.trans_lt hlimit)) hbound (by omega)
      rw [add_right_comm] at htc
      exact ⟨t, ht, hle.trans hat, htc⟩

/-- The mean of numbers below a power of two **is below it**. -/
theorem at_mean {j : ℕ} (hj : j ≤ 900) {xs : List Float} (hxs : ∀ x ∈ xs, ∃ r ≤ 2 ^ j, At x r)
    (hlength : xs.length < 2 ^ 53) :
    ∃ r ≤ 2 ^ j, At (if xs.length = 0 then 0 else xs.foldl (· + ·) 0 / ofNat xs.length) r := by
  split
  · exact ⟨0, by positivity, at_zero⟩
  · next hne =>
      have hpos : (0 : ℝ) < xs.length := Nat.cast_pos.2 (Nat.pos_of_ne_zero hne)
      obtain ⟨t, ht, -, hle⟩ := at_foldl hj hxs at_zero (c := 0)
        (by rw [Nat.cast_zero, zero_mul]) (by omega)
      rw [zero_add] at hle
      have hfits : nearest ((1 : ℕ) * 2 ^ j) = (1 : ℕ) * 2 ^ j :=
        nearest_natCast_mul (by norm_num) j
      rw [Nat.cast_one, one_mul] at hfits
      have hmean : nearest (t / xs.length) ≤ 2 ^ j := by
        refine (nearest_mono (div_nonneg ht.nonneg hpos.le) ?_).trans hfits.le
        rwa [div_le_iff₀ hpos, mul_comm]
      have hlimit : (2 : ℝ) ^ j < 2 ^ 1024 := pow_lt_pow_right₀ one_lt_two (by omega)
      exact ⟨_, hmean, ht.div (at_ofNat_of_lt hlength) hpos (hmean.trans_lt hlimit)⟩

/-! ### The worth of a rank -/

/-- A logarithm to base two that is **sound for counts up to a bound**: it lies between one and the
count, and keeps the order. -/
structure Log2Sound (log2 : Float → Float) (n : ℕ) : Prop where
  one_le : ∀ m ≤ n, 2 ≤ m → Scalar.le 1 (log2 (ofNat m)) = true
  le_self : ∀ m ≤ n, 2 ≤ m → Scalar.le (log2 (ofNat m)) (ofNat m) = true
  mono : ∀ m ≤ n, ∀ l ≤ m, 2 ≤ l → Scalar.le (log2 (ofNat l)) (log2 (ofNat m)) = true

/-- What a hit is worth at the first ranks: **no more than one**, no less than can be counted, and
the less the further down. -/
structure Worths (d : ℕ → Float) (w : ℕ → ℝ) (n : ℕ) : Prop where
  stands : ∀ rank < n, At (d rank) (w rank)
  le_one : ∀ rank < n, w rank ≤ 1
  least_le : ∀ rank < n, 2 ^ (-53 : ℤ) ≤ w rank
  anti : ∀ rank < n, ∀ first ≤ rank, w rank ≤ w first

/-- What lies between one and a number that is not negative **is one too**. -/
theorem exists_at_of_le {x y : Float} {t : ℝ} (hone : Scalar.le 1 x = true)
    (hle : Scalar.le x y = true) (hy : At y t) : ∃ r, At x r ∧ 1 ≤ r ∧ r ≤ t := by
  obtain ⟨-, -, hlow⟩ := (le_iff 1 x).1 hone
  obtain ⟨hx, -, hhigh⟩ := (le_iff x y).1 hle
  rw [hy.standing_eq.2] at hhigh
  rw [at_one.standing_eq.2] at hlow
  have hform := (reads_ofFloat x).inForm
  rw [show At x = Stands .positive x.toModel.unpack from rfl]
  generalize x.toModel.unpack = u at hx hlow hhigh hform
  cases u with
  | notANumber => exact absurd rfl hx
  | infinity s =>
      cases s with
      | positive => exact absurd hhigh (not_le.2 (EReal.coe_lt_top t))
      | negative => exact absurd hlow (not_le.2 (EReal.bot_lt_coe 1))
  | zero s =>
      exact absurd (EReal.coe_le_coe_iff.1 hlow) (not_le.2 one_pos)
  | finite s m e h =>
      have hlow' := EReal.coe_le_coe_iff.1 hlow
      cases s with
      | negative =>
          have hneg : -((m : ℝ) * 2 ^ e) < 0 := neg_lt_zero.2 (magnitude_pos h e)
          exact absurd hlow' (not_le.2 (hneg.trans one_pos))
      | positive =>
          exact ⟨_, .finite h hform.lt hform.least hform.full, hlow', EReal.coe_le_coe_iff.1 hhigh⟩

section

variable {log2 : Float → Float} {n : ℕ}

/-- A sound logarithm says **what ranks are worth**. -/
theorem Log2Sound.worths (h : Log2Sound log2 (n + 1)) (hn : n + 1 < 2 ^ 53) :
    ∃ w, Worths (@discount Float (Scalar.floating log2)) w n := by
  have hlog : ∀ rank, ∃ r : ℝ, rank < n →
      At (log2 (ofNat (rank + 2))) r ∧ 1 ≤ r ∧ r ≤ (rank + 2 : ℕ) := by
    intro rank
    by_cases hrank : rank < n
    · have hcount : At (ofNat (rank + 2)) (rank + 2 : ℕ) := at_ofNat_of_lt (by omega)
      obtain ⟨r, hr⟩ := exists_at_of_le (h.one_le (rank + 2) (by omega) (by omega))
        (h.le_self (rank + 2) (by omega) (by omega)) hcount
      exact ⟨r, fun _ => hr⟩
    · exact ⟨0, fun h => absurd h hrank⟩
  choose l hl using hlog
  have hle : ∀ rank < n, nearest (1 / l rank) ≤ 1 := fun rank hrank =>
    nearest_le_one (one_div_nonneg.2 (hl rank hrank).1.nonneg)
      ((div_le_one (zero_lt_one.trans_le (hl rank hrank).2.1)).2 (hl rank hrank).2.1)
  refine ⟨fun rank => nearest (1 / l rank), fun rank hrank => ?_, hle, fun rank hrank => ?_,
    fun rank hrank first hfirst => ?_⟩
  · obtain ⟨hat, hone, -⟩ := hl rank hrank
    exact at_one.div hat (zero_lt_one.trans_le hone) ((hle rank hrank).trans_lt one_lt_limit)
  · obtain ⟨hat, hone, hcount⟩ := hl rank hrank
    have hfits : nearest (2 ^ (-53 : ℤ)) = 2 ^ (-53 : ℤ) := by
      have h := nearest_natCast_mul_zpow (n := 1) (by norm_num) (e := -53) (by norm_num)
      rwa [Nat.cast_one, one_mul] at h
    refine hfits.ge.trans (nearest_mono (zpow_pos two_pos _).le ?_)
    rw [zpow_neg, ← one_div]
    refine one_div_le_one_div_of_le (zero_lt_one.trans_le hone) (hcount.trans ?_)
    have hsmall : rank + 2 ≤ 2 ^ 53 := by omega
    exact_mod_cast hsmall
  · obtain ⟨hat, hone, -⟩ := hl rank hrank
    obtain ⟨hat', hone', -⟩ := hl first (hfirst.trans_lt hrank)
    have hmono :=
      (hat'.le_iff hat).1 (h.mono (rank + 2) (by omega) (first + 2) (by omega) (by omega))
    exact nearest_mono (one_div_nonneg.2 hat.nonneg)
      (one_div_le_one_div_of_le (zero_lt_one.trans_le hone') hmono)

end

/-! ### Gains -/

section

variable {d : ℕ → Float} {w : ℕ → ℝ} {n : ℕ}

theorem Worths.exists_at (h : Worths d w n) {rank : ℕ} (hrank : rank < n) :
    ∃ r ≤ 2 ^ 0, At (d rank) r :=
  ⟨_, by rw [pow_zero]; exact h.le_one rank hrank, h.stands rank hrank⟩

/-- The gain of some ranks **does not pass that of the first ranks**, of which there are as many. -/
theorem Worths.foldl_le (h : Worths d w n) (hn : n < 2 ^ 53) {ranks : List ℕ} {i m : ℕ}
    (hsorted : ranks.Pairwise (· < ·)) (hranks : ∀ rank ∈ ranks, i ≤ rank ∧ rank < n)
    (hlength : ranks.length ≤ m) (hm : i + m ≤ n) {s t : Float} {a b : ℝ} (hs : At s a)
    (ht : At t b) (hab : a ≤ b) (hb : b ≤ i) :
    ∃ a' b', At ((ranks.map d).foldl (· + ·) s) a' ∧
      At (((List.range' i m).map d).foldl (· + ·) t) b' ∧ a' ≤ b' := by
  have hworth : ∀ {first count}, first + count ≤ n →
      ∀ x ∈ (List.range' first count).map d, ∃ r ≤ 2 ^ 0, At x r := by
    intro first count hle x hx
    obtain ⟨rank, hrank, rfl⟩ := List.mem_map.1 hx
    exact h.exists_at (by have := (List.mem_range'_1.1 hrank).2; omega)
  induction ranks generalizing i m s t a b with
  | nil =>
      obtain ⟨b', hb', hle, -⟩ := at_foldl (Nat.zero_le _) (hworth hm) ht
        (by rwa [pow_zero, mul_one]) (by rw [List.length_map, List.length_range']; omega)
      exact ⟨a, b', hs, hb', hab.trans hle⟩
  | cons rank ranks ih =>
      obtain ⟨m, rfl⟩ : ∃ m', m = m' + 1 := ⟨m - 1, by rw [List.length_cons] at hlength; omega⟩
      obtain ⟨hi, hlt⟩ := hranks rank List.mem_cons_self
      rw [List.pairwise_cons] at hsorted
      have hbound : nearest (b + w i) ≤ (i + 1 : ℕ) := by
        rw [← nearest_natCast (n := i + 1) (by omega)]
        refine nearest_mono (add_nonneg ht.nonneg (h.stands i (by omega)).nonneg) ?_
        push_cast
        exact add_le_add hb (h.le_one i (by omega))
      have hstep : nearest (a + w rank) ≤ nearest (b + w i) :=
        nearest_mono (add_nonneg hs.nonneg (h.stands rank hlt).nonneg)
          (add_le_add hab (h.anti rank hlt i hi))
      have hlimit : ((i + 1 : ℕ) : ℝ) < 2 ^ 1024 := natCast_lt_limit (by omega)
      exact ih hsorted.2 (fun r hr => ⟨(hi.trans_lt (hsorted.1 r hr)), (hranks r
          (List.mem_cons_of_mem rank hr)).2⟩) (by rw [List.length_cons] at hlength; omega) (by omega)
        (hs.add (h.stands rank hlt) (hstep.trans_lt (hbound.trans_lt hlimit)))
        (ht.add (h.stands i (by omega)) (hbound.trans_lt hlimit)) hstep hbound

/-- The gain of some ranks is **at most their number**, and something if there are any. -/
theorem Worths.at_foldl (h : Worths d w n) {ranks : List ℕ} (hranks : ∀ rank ∈ ranks, rank < n)
    (hlength : ranks.length < 2 ^ 53) :
    ∃ t, At ((ranks.map d).foldl (· + ·) 0) t ∧ t ≤ ranks.length ∧ (t ≠ 0 ↔ ranks ≠ []) ∧
      (t ≠ 0 → 2 ^ (-53 : ℤ) ≤ t) := by
  cases ranks with
  | nil => exact ⟨0, at_zero, Nat.cast_nonneg _, by simp, fun hne => absurd rfl hne⟩
  | cons rank ranks =>
      have hrank := hranks rank List.mem_cons_self
      have hone : w rank ≤ (1 : ℕ) * 2 ^ 0 := by
        rw [Nat.cast_one, one_mul, pow_zero]
        exact h.le_one rank hrank
      have hfirst : At (0 + d rank) (w rank) := by
        have hfits := (h.stands rank hrank).nearest_eq
        have hadd := at_zero.add (h.stands rank hrank)
        rw [zero_add, hfits] at hadd
        exact hadd ((h.le_one rank hrank).trans_lt one_lt_limit)
      rw [List.length_cons] at hlength
      have hothers : ∀ x ∈ ranks.map d, ∃ r ≤ 2 ^ 0, At x r := by
        intro x hx
        obtain ⟨r, hr, rfl⟩ := List.mem_map.1 hx
        exact h.exists_at (hranks r (List.mem_cons_of_mem rank hr))
      obtain ⟨t, ht, hle, hbound⟩ := CoEmbed.Floating.at_foldl (Nat.zero_le 900) hothers hfirst hone
        (by rw [List.length_map]; omega)
      have hleast : 2 ^ (-53 : ℤ) ≤ t := (h.least_le rank hrank).trans hle
      refine ⟨t, ht, ?_, iff_of_true ((zpow_pos two_pos _).trans_le hleast).ne'
        (List.cons_ne_nil _ _), fun _ => hleast⟩
      rwa [pow_zero, mul_one, List.length_map, add_comm] at hbound

end

/-- The ranks at which held-out keys stand, **in their order**. -/
def hitList (heldOut : List Key) : ℕ → List Key → List ℕ
  | _, [] => []
  | rank, x :: xs =>
    if x ∈ heldOut then rank :: hitList heldOut (rank + 1) xs else hitList heldOut (rank + 1) xs

theorem gainFrom_eq {α : Type} [Scalar α] (heldOut : List Key) (first : ℕ) (xs : List Key) :
    (gainFrom heldOut first xs : List α) = (hitList heldOut first xs).map discount := by
  induction xs generalizing first with
  | nil => rfl
  | cons x xs ih =>
      rw [gainFrom, hitList]
      split
      · rw [ih, List.map_cons]
      · exact ih (first + 1)

theorem length_hitList (heldOut : List Key) (first : ℕ) (xs : List Key) :
    (hitList heldOut first xs).length = (xs.filter fun x => decide (x ∈ heldOut)).length := by
  induction xs generalizing first with
  | nil => rfl
  | cons x xs ih =>
      rw [hitList]
      by_cases hx : x ∈ heldOut
      · rw [if_pos hx, List.filter_cons, if_pos (decide_eq_true hx), List.length_cons,
          List.length_cons, ih]
      · rw [if_neg hx, List.filter_cons, if_neg (mt of_decide_eq_true hx), ih]

theorem mem_hitList {heldOut : List Key} {first rank : ℕ} {xs : List Key}
    (h : rank ∈ hitList heldOut first xs) : first ≤ rank ∧ rank < first + xs.length := by
  induction xs generalizing first with
  | nil => cases h
  | cons x xs ih =>
      rw [hitList] at h
      rw [List.length_cons]
      split at h
      · rcases List.mem_cons.1 h with rfl | h
        · omega
        · have := ih h
          omega
      · have := ih h
        omega

theorem sorted_hitList (heldOut : List Key) (first : ℕ) (xs : List Key) :
    (hitList heldOut first xs).Pairwise (· < ·) := by
  induction xs generalizing first with
  | nil => exact .nil
  | cons x xs ih =>
      rw [hitList]
      split
      · exact List.pairwise_cons.2 ⟨fun r hr => (mem_hitList hr).1, ih (first + 1)⟩
      · exact ih (first + 1)

/-- There is a rank in the list **where a held-out key is found**. -/
theorem hitList_ne_nil_iff {n : ℕ} :
    hitList heldOut 0 (recommended.take n) ≠ [] ↔ Found recommended heldOut n := by
  rw [← List.length_pos_iff, length_hitList, List.length_pos_iff_exists_mem, Found, upTo_natCast]
  simp only [List.mem_filter, decide_eq_true_eq]

/-- A ranking that hits no key twice has **no more hits than the best** ranking. -/
theorem length_hitList_le {n : ℕ} (h : HitsOnce recommended heldOut n) :
    (hitList heldOut 0 (recommended.take n)).length ≤ min (distinct heldOut).length n := by
  rw [HitsOnce, upTo_natCast] at h
  rw [length_hitList]
  refine le_min ?_ ((List.length_filter_le _ _).trans (List.length_take_le n recommended))
  refine (h.subperm fun x hx => ?_).length_le
  exact mem_distinct.2 (of_decide_eq_true (List.mem_filter.1 hx).2)

/-- A quotient of gains is neither lost nor infinite, and **at most one where it should be**. -/
theorem At.relative {x y : Float} {a b : ℝ} (hx : At x a) (hy : At y b) (ha : a ≤ 2 ^ 53)
    (haleast : a ≠ 0 → 2 ^ (-53 : ℤ) ≤ a) (hb : b ≤ 2 ^ 53)
    (hbleast : b ≠ 0 → 2 ^ (-53 : ℤ) ≤ b) (hnone : b = 0 → a = 0) :
    ∃ r ≤ 2 ^ 106, At (if Scalar.eq y 0 then 0 else x / y) r ∧ (0 < r ↔ a ≠ 0) ∧
      (a ≤ b → r ≤ 1) := by
  by_cases hzero : b = 0
  · rw [if_pos ((hy.eq_iff at_zero).2 hzero)]
    exact ⟨0, by positivity, at_zero, iff_of_false (lt_irrefl 0) (not_not.2 (hnone hzero)),
      fun _ => zero_le_one⟩
  rw [if_neg (mt (hy.eq_iff at_zero).1 hzero)]
  have hb' := hbleast hzero
  have hpos : 0 < b := (zpow_pos two_pos _).trans_le hb'
  have hquotient : a / b ≤ (1 : ℕ) * 2 ^ 106 := by
    rw [div_le_iff₀ hpos, Nat.cast_one, one_mul]
    calc a ≤ 2 ^ 53 := ha
      _ = 2 ^ 106 * 2 ^ (-53 : ℤ) := by norm_num
      _ ≤ 2 ^ 106 * b := by gcongr
  have hbound : nearest (a / b) ≤ 2 ^ 106 := by
    have hmono := nearest_mono (div_nonneg hx.nonneg hpos.le) hquotient
    rwa [nearest_natCast_mul (by norm_num), Nat.cast_one, one_mul] at hmono
  have hlimit : (2 : ℝ) ^ 106 < 2 ^ 1024 := pow_lt_pow_right₀ one_lt_two (by norm_num)
  refine ⟨_, hbound, hx.div hy hpos (hbound.trans_lt hlimit), ⟨?_, fun hne => ?_⟩, fun hle => ?_⟩
  · rintro hlt rfl
    rw [zero_div, nearest_zero] at hlt
    exact hlt.false
  · refine (nearest_pos_iff (div_nonneg hx.nonneg hpos.le)).2 ((lt_div_iff₀ hpos).2 ?_)
    calc (2 : ℝ) ^ (-1075 : ℤ) * b ≤ 2 ^ (-1075 : ℤ) * 2 ^ (53 : ℤ) := by
          gcongr
          exact hb
      _ = 2 ^ (-1022 : ℤ) := (zpow_add₀ two_ne_zero _ _).symm
      _ < 2 ^ (-53 : ℤ) := zpow_lt_zpow_right₀ one_lt_two (by norm_num)
      _ ≤ a := haleast hne
  · exact nearest_le_one (div_nonneg hx.nonneg hpos.le) (div_le_one_of_le₀ hle hpos.le)

/-- The ideal gain is that of **the first ranks**. -/
theorem idealGain_eq {α : Type} [Scalar α] (count : ℕ) :
    (idealGain count : α) = ((List.range' 0 count).map discount).foldl (· + ·) 0 := by
  rw [idealGain, Scalar.total, List.range_eq_range']

/-- The gain of a ranking relative to the best one is above zero **where a held-out key is found**,
and at most one if none is found twice. -/
theorem at_ndcgAt {log2 : Float → Float} {m n : ℕ} (hlog : Log2Sound log2 (m + 1))
    (hm : m + 1 < 2 ^ 53) (hrecommended : recommended.length ≤ m) (hheld : heldOut.length ≤ m)
    (hn : 0 < n) :
    ∃ r ≤ 2 ^ 106, At (@ndcgAt Float (Scalar.floating log2) recommended heldOut n) r ∧
      (0 < r ↔ Found recommended heldOut n) ∧ (HitsOnce recommended heldOut n → r ≤ 1) := by
  let _ := Scalar.floating log2
  obtain ⟨w, hw⟩ := hlog.worths hm
  let ranks := hitList heldOut 0 (recommended.take n)
  let count := min (distinct heldOut).length n
  have hrank : ∀ rank ∈ ranks, rank < m := fun rank hr => by
    have hlt := (mem_hitList hr).2
    rw [List.length_take] at hlt
    omega
  have hdistinct : (distinct heldOut).length ≤ heldOut.length :=
    ((nodup_distinct _).subperm fun x => mem_distinct.1).length_le
  have hcount : count ≤ m := (min_le_left _ _).trans (hdistinct.trans hheld)
  have hfew : ranks.length ≤ m := by
    rw [length_hitList]
    exact (List.length_filter_le _ _).trans ((List.length_take_le' n recommended).trans hrecommended)
  have hlarge : ∀ {k : ℕ}, k ≤ m → (k : ℝ) ≤ 2 ^ 53 := fun hk => by
    have hsmall := hk.trans (Nat.lt_of_succ_lt hm).le
    exact_mod_cast hsmall
  obtain ⟨a, ha, hacount, hasome, haleast⟩ := hw.at_foldl hrank (by omega)
  have hideal : ∀ rank ∈ List.range' 0 count, rank < m := by
    intro rank hr
    have hlt := (List.mem_range'_1.1 hr).2
    omega
  obtain ⟨b, hb, hbcount, hbsome, hbleast⟩ := hw.at_foldl hideal
    (by rw [List.length_range']; omega)
  rw [List.length_range'] at hbcount
  have hnone : b = 0 → a = 0 := by
    -- nothing is held out
    intro hb0
    refine not_not.1 fun ha0 => not_not.2 hb0 (hbsome.2 fun hnil => ?_)
    have hcount := congrArg List.length hnil
    rw [List.length_range', List.length_nil] at hcount
    exact (min_distinct_pos (hitList_ne_nil_iff.1 (hasome.1 ha0)).ne_nil hn).ne' hcount
  obtain ⟨r, hr, hat, hpositive, hone⟩ := ha.relative hb (hacount.trans (hlarge hfew)) haleast
    (hbcount.trans (hlarge hcount)) hbleast hnone
  refine ⟨r, hr, ?_, hpositive.trans (hasome.trans hitList_ne_nil_iff), fun honce => hone ?_⟩
  · rw [ndcgAt, upTo_natCast, Int.toNat_natCast, gainFrom_eq, idealGain_eq]
    exact hat
  · -- no more ranks are hit than the best ranking hits
    obtain ⟨a', b', ha', hb', hle⟩ := hw.foldl_le (Nat.lt_of_succ_lt hm)
      (sorted_hitList heldOut 0 (recommended.take n))
      (fun rank hr => ⟨Nat.zero_le rank, hrank rank hr⟩) (length_hitList_le honce) (by omega)
      at_zero at_zero le_rfl Nat.cast_zero.ge
    rwa [← ha.unique ha', ← hb.unique hb'] at hle

end Floating

end CoEmbed
