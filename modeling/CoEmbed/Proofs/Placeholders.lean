import Mathlib.Data.Finset.Card
import CoEmbed.Machine.Standard
import CoEmbed.Negatives

/-!
# Placeholders

The placeholders of a probe are filled with keys that are drawn from a pool of candidates. How they
are drawn is not the probe's affair: whatever chooses different places of the pool fills exactly the
placeholders, with different candidates, and with all of them if there is room.

* `Choice.Legal.drawBy` — what a legal choice draws from a pool.
* `fillBy` — a probe filled by a choice.
* `sampleNegatives_eq_fillBy` — a machine fills a probe by the choice that it makes.
* `placeholders_are_filled` — what any legal choice fills a probe with.

## Place convention

Places are counted from the front, the first one being zero. A probe may be shorter than its
positives and placeholders together: what is missing of it is passed over, and it may grow.
-/

namespace CoEmbed

variable {σ κ : Type}

/-! ### Draws -/

/-- A list is its members **place by place**. -/
theorem map_getElem?_range (pool : List κ) :
    (List.range pool.length).map (fun p => pool[p]?) = pool.map some := by
  refine List.ext_getElem? fun p => ?_
  rw [List.getElem?_map, List.getElem?_map]
  by_cases hp : p < pool.length
  · rw [List.getElem?_range hp, List.getElem?_eq_getElem hp]
    exact congrArg some (List.getElem?_eq_getElem hp)
  · rw [List.getElem?_eq_none (by simpa using hp), List.getElem?_eq_none (by simpa using hp)]
    rfl

/-- The members at **all places** are those of the list. -/
theorem filterMap_getElem?_range (pool : List κ) :
    (List.range pool.length).filterMap (fun p => pool[p]?) = pool := by
  have h := congrArg (List.filterMap id) (map_getElem?_range pool)
  rw [List.filterMap_map, List.filterMap_map] at h
  exact h.trans List.filterMap_some

variable {choose : Choice σ}

/-- A legal choice draws **different members** of a pool without repetitions, as many as it is asked
for. -/
theorem Choice.Legal.drawBy (h : choose.Legal) {pool : List κ} (hpool : pool.Nodup) {size : ℕ}
    (hsize : size ≤ pool.length) (s : σ) :
    (drawBy choose size pool s).1.length = size ∧ (drawBy choose size pool s).1.Nodup ∧
      ∀ k ∈ (CoEmbed.drawBy choose size pool s).1, k ∈ pool := by
  rw [CoEmbed.drawBy]
  by_cases hzero : size = 0
  · rw [if_pos hzero, hzero]
    exact ⟨rfl, List.nodup_nil, fun k hk => absurd hk List.not_mem_nil⟩
  rw [if_neg hzero]
  have hplace : ∀ p ∈ (choose pool.length size s).1, ∃ k, pool[p]? = some k := fun p hp =>
    ⟨_, List.getElem?_eq_getElem (h.lt hsize s p hp)⟩
  refine ⟨?_, ?_, ?_⟩
  · dsimp only
    rw [List.filterMap_length_eq_length.2 fun p hp => ?_, h.length hsize s]
    obtain ⟨k, hk⟩ := hplace p hp
    rw [hk]
    rfl
  · refine List.Nodup.filterMap ?_ (h.nodup hsize s)
    intro p q k hp hq
    obtain ⟨hlt, hpk⟩ := List.getElem?_eq_some_iff.1 hp
    obtain ⟨hlt', hqk⟩ := List.getElem?_eq_some_iff.1 hq
    exact (List.Nodup.getElem_inj_iff hpool).1 (hpk.trans hqk.symm)
  · intro k hk
    obtain ⟨p, -, hp⟩ := List.mem_filterMap.1 hk
    exact List.mem_of_getElem? hp

/-! ### Probes -/

variable [DecidableEq κ]

/-- A probe with its placeholders **filled by a choice** among the candidates. -/
def fillBy (choose : Choice σ) (positives negatives : ℕ) (probe known : List κ) (s : σ) :
    List κ × σ :=
  let pool := candidates (probe.take positives) known
  let drawn := drawBy choose (min negatives pool.length) pool s
  (probe.take positives ++ drawn.1 ++ probe.drop (positives + negatives), drawn.2)

/-- A number of places that is not negative is counted **from the front**. -/
theorem placeOf_natCast (count length : ℕ) : placeOf count length = min count length := by
  rw [placeOf, if_pos (Int.natCast_nonneg count), Int.toNat_natCast]

/-- A number that is not negative is drawn as far as **there are candidates**. -/
theorem drawNegatives_natCast [Machine] (negatives : ℕ) (positives known : List κ) (s : Source) :
    drawNegatives negatives positives known s
      = .ok (drawBy Machine.choose (min negatives (candidates positives known).length)
          (candidates positives known) s) := by
  rw [drawNegatives, drawCount, if_neg (Int.natCast_nonneg negatives).not_gt, Int.toNat_natCast]
  rfl

/-- A machine fills a probe **by the choice that it makes**. -/
theorem sampleNegatives_eq_fillBy [Machine] (positives negatives : ℕ) (probe known : List κ)
    (s : Source) :
    sampleNegatives positives negatives probe known s
      = .ok (fillBy Machine.choose positives negatives probe known s) := by
  have hhead : probe.take (placeOf positives probe.length) = probe.take positives := by
    rw [placeOf_natCast, ← List.take_eq_take_min]
  have hstop : max (placeOf positives probe.length) (placeOf (positives + negatives) probe.length)
      = min (positives + negatives) probe.length := by
    rw [← Int.natCast_add, placeOf_natCast, placeOf_natCast]
    omega
  have hrest : probe.drop (max (placeOf positives probe.length)
      (placeOf (positives + negatives) probe.length)) = probe.drop (positives + negatives) := by
    rw [hstop, ← List.drop_eq_drop_min]
  rw [sampleNegatives, hhead, drawNegatives_natCast, fillBy]
  simp only [hrest]
  rfl

theorem mem_candidates {positives known : List κ} {k : κ} :
    k ∈ candidates positives known ↔ k ∈ known ∧ k ∉ positives := by
  rw [candidates, List.mem_filter, mem_distinct, decide_eq_true_iff]

theorem nodup_candidates (positives known : List κ) : (candidates positives known).Nodup :=
  (nodup_distinct known).filter _

/-- There are as many candidates as **different known keys** that are not among the positives. -/
theorem length_candidates (positives known : List κ) :
    (candidates positives known).length = (known.toFinset \ positives.toFinset).card := by
  rw [← List.toFinset_card_of_nodup (nodup_candidates positives known)]
  refine congrArg Finset.card (Finset.ext fun k => ?_)
  rw [List.mem_toFinset, mem_candidates, Finset.mem_sdiff, List.mem_toFinset, List.mem_toFinset]

/-- **The placeholders of a probe are filled, and nothing else is touched.** Whatever chooses
different places of the pool, the positives stay in front and what follows the placeholders stays
behind; between them there are different known keys, none of them among the positives, as many as
there are placeholders or candidates. Where there are placeholders for all candidates, each of them
is there. Known keys count once, where they come first. The choice of every machine is such a
choice, and that of the standard machine is a partial shuffle. -/
theorem placeholders_are_filled {choose : Choice σ} (hchoose : choose.Legal)
    (positives negatives : ℕ) (probe known : List κ) (s : σ) :
    let kept := probe.take positives
    let others := known.toFinset \ kept.toFinset
    (∃ drawn : List κ,
      (fillBy choose positives negatives probe known s).1
          = kept ++ drawn ++ probe.drop (positives + negatives) ∧
        drawn.length = min negatives others.card ∧ drawn.Nodup ∧
        (∀ k ∈ drawn, k ∈ known ∧ k ∉ kept) ∧
        (others.card ≤ negatives → ∀ k, k ∈ drawn ↔ k ∈ known ∧ k ∉ kept)) ∧
      (∀ known', distinct known' = distinct known →
        fillBy choose positives negatives probe known' s
          = fillBy choose positives negatives probe known s) ∧
      Choice.shuffled.Legal ∧
      (∀ source, sampleNegatives positives negatives probe known source
        = .ok (fillBy Choice.shuffled positives negatives probe known source)) ∧
      ∀ machine : Machine, machine.choose.Legal ∧
        ∀ source, sampleNegatives positives negatives probe known source
          = .ok (fillBy machine.choose positives negatives probe known source) := by
  intro kept others
  have hcard : (candidates kept known).length = others.card := length_candidates kept known
  have hdrawn := hchoose.drawBy (nodup_candidates kept known)
    (Nat.min_le_right negatives (candidates kept known).length) s
  obtain ⟨hlength, hnodup, hpool⟩ := hdrawn
  refine ⟨⟨_, rfl, hcard ▸ hlength, hnodup, fun k hk => mem_candidates.1 (hpool k hk), ?_⟩, ?_,
    Choice.legal_shuffled, sampleNegatives_eq_fillBy positives negatives probe known,
    fun machine => ⟨machine.legal, sampleNegatives_eq_fillBy positives negatives probe known⟩⟩
  · intro hroom k
    rw [← mem_candidates]
    refine ⟨hpool k, fun hk => ?_⟩
    -- a list of candidates, none of them twice, that is as long as the pool leaves none of them out
    have hperm := (hnodup.subperm hpool).perm_of_length_le
      (by rw [hlength, Nat.min_eq_right (hcard ▸ hroom)])
    exact hperm.mem_iff.2 hk
  · intro known' hknown
    rw [fillBy, fillBy, candidates, candidates, hknown]

/-- The last places are chosen, and **the probe shrinks**: three candidates are left for four
placeholders, since one of the known keys is a positive, and others are listed twice. -/
theorem placeholders_are_filled_shrinking :
    let last : Choice Unit := fun available size s =>
      (((List.range available).reverse).take size, s)
    let probe : List ℕ := [1, 2, 1, 0, 0, 0, 0, 9]
    let known : List ℕ := [2, 3, 3, 1, 4, 5, 3]
    last.Legal ∧ (fillBy last 3 4 probe known ()).1 = [1, 2, 1, 5, 4, 3, 9] ∧
      sampleNegatives 3 4 probe known ⟨1, 0⟩ = .ok ([1, 2, 1, 5, 3, 4, 9], ⟨1, 3⟩) ∧
      (∃ drawn : List ℕ, (fillBy last 3 4 probe known ()).1 = [1, 2, 1] ++ drawn ++ [9] ∧
        drawn.length = 3 ∧ drawn.Nodup ∧ ∀ k, k ∈ drawn ↔ k ∈ known ∧ k ∉ [1, 2, 1]) ∧
      fillBy last 3 4 probe [2, 3, 1, 4, 5, 5] () = fillBy last 3 4 probe known () := by
  intro last probe known
  have hlast : last.Legal := by
    refine ⟨fun h s => ?_, fun _ s => ?_, fun _ s p hp => ?_⟩
    · rw [List.length_take, List.length_reverse, List.length_range, Nat.min_eq_left h]
    · exact (List.nodup_reverse.2 List.nodup_range).sublist (List.take_sublist _ _)
    · exact List.mem_range.1 (List.mem_reverse.1 (List.mem_of_mem_take hp))
  obtain ⟨⟨drawn, hfill, hlength, hnodup, -, hall⟩, hknown, -⟩ :=
    placeholders_are_filled hlast 3 4 probe known ()
  exact ⟨hlast, by decide, by decide +kernel,
    ⟨drawn, hfill, hlength, hnodup, hall (by decide)⟩, hknown _ (by decide)⟩

end CoEmbed
