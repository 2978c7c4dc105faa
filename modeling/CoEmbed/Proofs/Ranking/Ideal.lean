import CoEmbed.Proofs.Best
import CoEmbed.Proofs.Ranking.Range

/-!
# Ideal Rankings

A ranking without repetitions has the gain of the best one only if it opens with held-out keys, as
many as there are or as the cut-off lets in. Short of that, moving a held-out key up to a missed
rank brings it nearer.

* `hitRanks_eq_range_iff` — rankings that open with held-out keys.
* `ndcgAt_eq_one_iff`, `ndcgAt_lt_one` — they are the best, and no others are.
* `exchanged`, `hitRanks_exchanged`, `ndcgAt_lt_exchanged` — two keys of a ranking change places.
* `Recommender.nodup_recommend` — a recommender does not repeat itself.
* `ideal_rankings` — which rankings are the best, and what makes a ranking better.

## Exchange convention

The key further down may stand behind the cut-off; the one it changes places with may not.
-/

namespace CoEmbed

variable {recommended heldOut : List Key}

/-! ### The best rankings -/

/-- The hits are the first ranks exactly if **each of these is hit**: there is no room for
others. -/
theorem hitRanks_eq_range_iff {n : ℕ} (h : HitsOnce recommended heldOut n) :
    hitRanks recommended heldOut n = Finset.range (min (distinct heldOut).length n) ↔
      ∀ rank < min (distinct heldOut).length n, IsHit recommended heldOut rank := by
  constructor
  · intro heq rank hrank
    exact (mem_hitRanks.1 (heq ▸ Finset.mem_range.2 hrank)).2
  · intro hhit
    refine (Finset.eq_of_subset_of_card_le (fun rank hrank => ?_) ?_).symm
    · have hlt := Finset.mem_range.1 hrank
      exact mem_hitRanks.2 ⟨hlt.trans_le (min_le_right _ _), hhit rank hlt⟩
    · rw [Finset.card_range]
      exact h.card_le

/-- A ranking that misses one of the first ranks has **less than the best gain**. -/
theorem ndcgAt_lt_one {n : ℕ} (h : HitsOnce recommended heldOut n) (hheld : heldOut ≠ [])
    (hn : 0 < n)
    (hmiss : ¬ ∀ rank < min (distinct heldOut).length n, IsHit recommended heldOut rank) :
    (ndcgAt recommended heldOut n : ℝ) < 1 := by
  rw [ndcgAt_eq, div_lt_one (sum_discount_pos (min_distinct_pos hheld hn))]
  exact sum_lt_sum_range strictAnti_discount discount_pos h.card_le
    (mt (hitRanks_eq_range_iff h).1 hmiss)

/-- A ranking has **the best gain** exactly if each of the first ranks is hit. -/
theorem ndcgAt_eq_one_iff {n : ℕ} (h : HitsOnce recommended heldOut n) (hheld : heldOut ≠ [])
    (hn : 0 < n) : (ndcgAt recommended heldOut n : ℝ) = 1 ↔
      ∀ rank < min (distinct heldOut).length n, IsHit recommended heldOut rank := by
  constructor
  · intro hone
    by_contra hmiss
    exact (ndcgAt_lt_one h hheld hn hmiss).ne hone
  · intro hhit
    rw [ndcgAt_eq, (hitRanks_eq_range_iff h).2 hhit]
    exact div_self (sum_discount_pos (min_distinct_pos hheld hn)).ne'

/-! ### Exchanges -/

/-- A ranking with the keys at two ranks **exchanged**. -/
def exchanged (recommended : List Key) (i j : ℕ) (x y : Key) : List Key :=
  (recommended.set i y).set j x

variable {i j : ℕ} {x y : Key}

/-- A ranking in which a missed key and a held-out key further down are exchanged is **hit at the
rank of the former** instead of that of the latter. -/
theorem hitRanks_exchanged {n : ℕ} (hij : i < j) (hi : recommended[i]? = some x) (hx : x ∉ heldOut)
    (hj : recommended[j]? = some y) (hy : y ∈ heldOut) (hin : i < n) :
    hitRanks (exchanged recommended i j x y) heldOut n
      = insert i ((hitRanks recommended heldOut n).erase j) := by
  obtain ⟨hilt, -⟩ := List.getElem?_eq_some_iff.1 hi
  obtain ⟨hjlt, -⟩ := List.getElem?_eq_some_iff.1 hj
  ext rank
  rw [Finset.mem_insert, Finset.mem_erase, mem_hitRanks, mem_hitRanks]
  rcases eq_or_ne rank i with rfl | hranki
  · have hget : (exchanged recommended rank j x y)[rank]? = some y := by
      rw [exchanged, List.getElem?_set_ne hij.ne', List.getElem?_set_self hilt]
    exact iff_of_true ⟨hin, y, hget, hy⟩ (.inl rfl)
  rcases eq_or_ne rank j with rfl | hrankj
  · have hget : (exchanged recommended i rank x y)[rank]? = some x := by
      rw [exchanged, List.getElem?_set_self (by rwa [List.length_set])]
    refine iff_of_false ?_ fun h => h.elim hij.ne' fun h => h.1 rfl
    rintro ⟨-, z, hz, hmem⟩
    rw [hget] at hz
    exact hx (Option.some.inj hz ▸ hmem)
  · have hget : (exchanged recommended i j x y)[rank]? = recommended[rank]? := by
      rw [exchanged, List.getElem?_set_ne hrankj.symm, List.getElem?_set_ne hranki.symm]
    rw [IsHit, IsHit, hget]
    exact ⟨fun h => .inr ⟨hrankj, h⟩, fun h => (h.resolve_left hranki).2⟩

/-- Such an exchange makes a ranking **better**. -/
theorem ndcgAt_lt_exchanged {n : ℕ} (hij : i < j) (hi : recommended[i]? = some x)
    (hx : x ∉ heldOut) (hj : recommended[j]? = some y) (hy : y ∈ heldOut) (hin : i < n) :
    (ndcgAt recommended heldOut n : ℝ) < ndcgAt (exchanged recommended i j x y) heldOut n := by
  have hmissed : i ∉ (hitRanks recommended heldOut n).erase j := by
    rw [Finset.mem_erase, mem_hitRanks]
    rintro ⟨-, -, z, hz, hmem⟩
    rw [hi] at hz
    exact hx (Option.some.inj hz ▸ hmem)
  have hheld : heldOut ≠ [] := List.ne_nil_of_mem hy
  have hpos := sum_discount_pos (min_distinct_pos hheld (Nat.zero_lt_of_lt hin))
  rw [ndcgAt_eq, ndcgAt_eq, hitRanks_exchanged hij hi hx hj hy hin, Finset.sum_insert hmissed]
  refine div_lt_div_of_pos_right ?_ hpos
  calc ∑ rank ∈ hitRanks recommended heldOut n, (discount rank : ℝ)
      ≤ discount j + ∑ rank ∈ (hitRanks recommended heldOut n).erase j, discount rank := by
        -- behind the cut-off the held-out key had been worth nothing
        by_cases hmem : j ∈ hitRanks recommended heldOut n
        · exact (Finset.add_sum_erase _ _ hmem).ge
        · rw [Finset.erase_eq_of_notMem hmem]
          exact le_add_of_nonneg_left (discount_pos j).le
    _ < discount i + ∑ rank ∈ (hitRanks recommended heldOut n).erase j, discount rank :=
        add_lt_add_left (strictAnti_discount hij) _

/-! ### Recommenders -/

section

variable {α : Type}

/-- A recommender that answers **does not repeat itself**. -/
theorem Recommender.nodup_recommend [Numeral α] {r : Recommender α} {user : Key}
    {history items : List Key} {count : Setting α}
    (h : r.recommend user history count = .ok items) : items.Nodup := by
  rw [recommend] at h
  split at h
  · cases h
  · next f hf =>
      split at h
      · obtain rfl := Except.ok.inj h
        exact List.nodup_nil
      · next v hv =>
          obtain ⟨k, -, h⟩ := bind_eq_ok_iff.1 h
          obtain rfl := Except.ok.inj h
          exact f.nodup_recommend user history k

end

/-- **The relative gain rewards ideal rankings, and nothing else as much.** A ranking without
repetitions, as a recommender gives it, has a relative gain of one exactly if each of the first
ranks is hit, as many as there are different held-out keys or as the cut-off lets in, and one below
that otherwise. To exchange a missed key before the cut-off with a held-out key further down, which
may be behind the cut-off, makes any ranking better. -/
theorem ideal_rankings (recommended : List Key) {heldOut : List Key} (hheld : heldOut ≠ [])
    {k : ℤ} (hk : 1 ≤ k) :
    (recommended.Nodup →
      ((ndcgAt recommended heldOut k : ℝ) = 1 ↔
        ∀ rank < min (distinct heldOut).length k.toNat, IsHit recommended heldOut rank) ∧
      ((∃ rank < min (distinct heldOut).length k.toNat, ¬ IsHit recommended heldOut rank) →
        (ndcgAt recommended heldOut k : ℝ) < 1)) ∧
    (∀ (i j : ℕ) x y, i < j → recommended[i]? = some x → x ∉ heldOut → recommended[j]? = some y →
      y ∈ heldOut → (i : ℤ) < k →
      (ndcgAt recommended heldOut k : ℝ) < ndcgAt (exchanged recommended i j x y) heldOut k) ∧
    ∀ {α : Type} [Numeral α] (r : Recommender α) user history count items,
      r.recommend user history count = .ok items → items.Nodup := by
  obtain ⟨n, rfl⟩ := Int.eq_ofNat_of_zero_le (zero_le_one.trans hk)
  have hn : 0 < n := Int.ofNat_lt.1 hk
  rw [Int.toNat_natCast]
  refine ⟨fun hnodup => ?_, fun i j x y hij hi hx hj hy hin => ?_,
    fun _ _ _ _ _ h => Recommender.nodup_recommend h⟩
  · have honce := HitsOnce.of_nodup hnodup heldOut n
    refine ⟨ndcgAt_eq_one_iff honce hheld hn, fun ⟨rank, hrank, hmiss⟩ => ?_⟩
    exact ndcgAt_lt_one honce hheld hn fun hhit => hmiss (hhit rank hrank)
  · exact ndcgAt_lt_exchanged hij hi hx hj hy (Int.ofNat_lt.1 hin)

/-- A ranking that misses its first rank, and **becomes ideal** once the missed key changes places
with a held-out one from behind the cut-off; and what a recommender suggests, each item once. -/
theorem ideal_rankings_behind_cutoff :
    letI := Spelling.silent
    let ranking : List Key := [.text "a", .text "b", .text "z"]
    let better : List Key := [.text "z", .text "b", .text "a"]
    let heldOut : List Key := [.text "b", .text "z", .text "b"]
    let r : Recommender ℝ :=
      ⟨⟨fun _ => .absent, .auc, ⟨.gaussian, 1, 1, 1⟩⟩, some Fitted.tied, .empty, 0⟩
    (ndcgAt ranking heldOut 2 : ℝ) < 1 ∧
      (ndcgAt ranking heldOut 2 : ℝ) < ndcgAt better heldOut 2 ∧
      (ndcgAt better heldOut 2 : ℝ) = 1 ∧
      ∃ items, r.recommend (.text "u") [] (.integer 3) = .ok items ∧ items.Nodup := by
  let _ := Spelling.silent
  intro ranking better heldOut r
  have hheld : heldOut ≠ [] := List.cons_ne_nil _ _
  have hitems : r.recommend (.text "u") [] (.integer 3)
      = .ok (Fitted.tied.recommend (.text "u") [] 3) := rfl
  obtain ⟨hranking, hexchange, hrecommend⟩ :=
    ideal_rankings ranking hheld (k := 2) (by decide)
  obtain ⟨hbetter, -, -⟩ := ideal_rankings better hheld (k := 2) (by decide)
  refine ⟨(hranking (by decide)).2 (by decide), ?_, (hbetter (by decide)).1.2 (by decide),
    _, hitems, hrecommend r _ _ _ _ hitems⟩
  exact hexchange 0 2 (.text "a") (.text "z") (by decide) rfl (by decide) rfl (by decide)
    (by decide)

end CoEmbed
