import CoEmbed.Proofs.Table
import CoEmbed.Ranking.TopK

/-!
# The Hits of a Ranking

Metrics look for held-out keys among the different keys up to a cut-off, or key by key. What they
find is the same, and there is a bound to it.

* `hits_le_cutoff`, `hits_le_length`, `hitAt_le_one` — how much can be found.
* `HitsOnce` — rankings that recommend no held-out key twice.
* `Found` — a held-out key stands up to the cut-off.
* `hits_pos_iff`, `hitAt_eq_one_iff` — two ways to look for one.
* `hits_mono`, `hitAt_mono` — what a later cut-off finds.

## Repetition convention

A key that is recommended twice is one hit. A key that is held out twice is one as well, but it is
counted twice among the held-out keys.
-/

namespace CoEmbed

/-- A cut-off that is not negative **takes so many keys**. -/
theorem upTo_natCast {β : Type} (n : ℕ) (xs : List β) : upTo (n : ℤ) xs = xs.take n := by
  rw [upTo, if_pos (Int.natCast_nonneg n), Int.toNat_natCast]

/-! ### Bounds -/

/-- There are **ranks to be hit** if anything is held out. -/
theorem min_distinct_pos {heldOut : List Key} (hheld : heldOut ≠ []) {n : ℕ} (hn : 0 < n) :
    0 < min (distinct heldOut).length n := by
  obtain ⟨x, hx⟩ := List.exists_mem_of_ne_nil heldOut hheld
  exact lt_min (List.length_pos_of_mem (mem_distinct.2 hx)) hn

section

variable {recommended heldOut : List Key} {k : ℤ}

/-- There are no more different hits than **ranks**. -/
theorem hits_le_cutoff (hk : 0 ≤ k) : (hits recommended heldOut k : ℤ) ≤ k := by
  obtain ⟨n, rfl⟩ := Int.eq_ofNat_of_zero_le hk
  have hdistinct : (distinct (recommended.take n)).length ≤ (recommended.take n).length :=
    ((nodup_distinct _).subperm fun x => mem_distinct.1).length_le
  have hcount : hits recommended heldOut n ≤ n := by
    rw [hits, upTo_natCast]
    exact (List.countP_le_length).trans (hdistinct.trans (List.length_take_le n recommended))
  exact Int.ofNat_le.2 hcount

/-- There are no more different hits than **held-out keys**. -/
theorem hits_le_length : hits recommended heldOut k ≤ heldOut.length := by
  rw [hits, List.countP_eq_length_filter]
  refine (((nodup_distinct _).filter _).subperm fun x hx => ?_).length_le
  exact of_decide_eq_true (List.mem_filter.1 hx).2

/-- A ranking hits **once or not at all**. -/
theorem hitAt_le_one : hitAt recommended heldOut k ≤ 1 := by
  rw [hitAt]
  split
  · exact le_rfl
  · exact Nat.zero_le 1

end

/-- Up to a cut-off **no held-out key is recommended twice**. -/
def HitsOnce (recommended heldOut : List Key) (k : ℤ) : Prop :=
  ((upTo k recommended).filter fun x => decide (x ∈ heldOut)).Nodup

/-- A ranking without repetitions recommends no held-out key twice. -/
theorem HitsOnce.of_nodup {recommended : List Key} (h : recommended.Nodup) (heldOut : List Key)
    (k : ℤ) : HitsOnce recommended heldOut k := by
  refine List.Nodup.filter _ (h.sublist ?_)
  rw [upTo]
  split <;> exact List.take_sublist _ _

/-! ### Ways to look for a held-out key -/

section

variable {recommended heldOut : List Key}

/-- A held-out key stands **up to the cut-off**. -/
def Found (recommended heldOut : List Key) (k : ℤ) : Prop :=
  ∃ x ∈ upTo k recommended, x ∈ heldOut

/-- Different hits are counted **where a held-out key is found**. -/
theorem hits_pos_iff {k : ℤ} : 0 < hits recommended heldOut k ↔ Found recommended heldOut k := by
  rw [hits, List.countP_pos_iff]
  simp only [mem_distinct, decide_eq_true_eq]
  rfl

/-- A ranking hits **where a held-out key is found**. -/
theorem hitAt_eq_one_iff {k : ℤ} :
    hitAt recommended heldOut k = 1 ↔ Found recommended heldOut k := by
  have hany : (upTo k recommended).any (fun x => decide (x ∈ heldOut)) = true
      ↔ Found recommended heldOut k := by
    simp only [List.any_eq_true, decide_eq_true_eq]
    rfl
  rw [hitAt, ← hany]
  split
  · next h => exact iff_of_true rfl h
  · next h => exact iff_of_false Nat.zero_ne_one h

/-- A key that is found is **one of those held out**. -/
theorem Found.ne_nil {k : ℤ} (h : Found recommended heldOut k) : heldOut ≠ [] := by
  obtain ⟨x, -, hx⟩ := h
  exact List.ne_nil_of_mem hx

/-! ### Later cut-offs -/

variable {k l : ℤ}

/-- A later cut-off takes **what an earlier one takes**, and more. -/
theorem upTo_mono (hk : 0 ≤ k) (hkl : k ≤ l) (xs : List Key) : upTo k xs <+: upTo l xs := by
  rw [upTo, upTo, if_pos hk, if_pos (hk.trans hkl)]
  exact List.take_prefix_take_left (Int.toNat_le_toNat hkl)

theorem Found.mono (hk : 0 ≤ k) (hkl : k ≤ l) (h : Found recommended heldOut k) :
    Found recommended heldOut l := by
  obtain ⟨x, hx, hheld⟩ := h
  exact ⟨x, (upTo_mono hk hkl recommended).subset hx, hheld⟩

/-- A later cut-off finds **no fewer** different hits. -/
theorem hits_mono (hk : 0 ≤ k) (hkl : k ≤ l) :
    hits recommended heldOut k ≤ hits recommended heldOut l := by
  have hsub : (distinct (upTo k recommended)).Subperm (distinct (upTo l recommended)) := by
    refine (nodup_distinct _).subperm fun x hx => ?_
    exact mem_distinct.2 ((upTo_mono hk hkl recommended).subset (mem_distinct.1 hx))
  exact hsub.countP_le _

theorem hitAt_mono (hk : 0 ≤ k) (hkl : k ≤ l) :
    hitAt recommended heldOut k ≤ hitAt recommended heldOut l := by
  rcases Nat.le_one_iff_eq_zero_or_eq_one.1 (hitAt_le_one (k := k)) with hzero | hone
  · rw [hzero]
    exact Nat.zero_le _
  · rw [hone, hitAt_eq_one_iff.2 ((hitAt_eq_one_iff.1 hone).mono hk hkl)]

end

end CoEmbed
