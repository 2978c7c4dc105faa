import CoEmbed.Proofs.Exact.Order
import CoEmbed.Proofs.Exact.Share
import CoEmbed.Proofs.Operation
import CoEmbed.Proofs.Placeholders
import CoEmbed.Proofs.Validation

/-!
# Comparison with Sampled Items

For the rank metric a pair is compared with items that are sampled, and its loss is how far the
share of those that it beats falls short of one. Which items may be sampled depends on what has been
asked of the model before: they are registered, the user has not had them, and they are not the item
of the pair.

* `recorded`, `Model.histories_after` — the items that a user was last recorded to have.
* `Model.others` — the items that a pair may be compared with.
* `Model.negativesFor_eq_probe` — they fill the placeholders of a probe that opens with the item.
* `Model.score`, `Model.beaten`, `Model.tied` — how a pair compares with some items.
* `Model.rankLoss_eq` — what its loss is.
* `comparison_is_exact` — the losses of all pairs, after any operations.
* `not_alwaysCompared` — finite vectors, and an item to be compared with, are not enough.

## Room convention

The number of items to be sampled is asked for whether or not there are so many, so a number that
memory does not hold makes every comparison fail.
-/

namespace CoEmbed

variable {ρ α : Type} {n : ℕ}

/-! ### Histories -/

/-- The items that an operation **records** for a user, if it records any. -/
def Operation.records (user : Key) : Operation ρ → Option (List Key)
  | registerHistories histories => histories.get? user
  | registerUsers _ | registerItems _ | updateUsers _ | updateItems _ _ | validate _ _ | predict _ _
  | preferenceLoss _ | neighborLoss _ | ridgeLoss | loss _ => none

/-- The items that were **last recorded** for a user in the course of some operations. -/
def recorded (ops : List (Operation ρ)) (user : Key) : List Key :=
  (ops.reverse.findSome? (Operation.records user)).getD []

namespace Model

section

variable [Scalar α]

theorem histories_registerUsers [Machine] (m : Model α n) (ks : List Key) :
    (m.registerUsers ks).state.histories = m.histories := by
  rw [registerUsers]
  split <;> rfl

theorem histories_registerItems [Machine] (m : Model α n) (ks : List Key) :
    (m.registerItems ks).state.histories = m.histories := by
  rw [registerItems]
  split <;> rfl

variable [Operand ρ α]

/-- An operation **replaces the histories that it records**, and keeps the others. -/
theorem histories_act [Machine] {m : Model α n} (h : m.Aligned) (op : Operation ρ) (user : Key) :
    (m.act op).state.histories.get? user
      = (op.records user).or (m.histories.get? user) := by
  cases hop : op.registers with
  | false =>
      have hnone : op.records user = none := by
        cases op with
        | registerHistories histories => cases hop
        | _ => rfl
      rw [hnone, (keeps_act h hop).frame.histories]
      rfl
  | true =>
      cases op with
      | registerUsers users => exact congrArg (·.get? user) (histories_registerUsers m users)
      | registerItems items => exact congrArg (·.get? user) (histories_registerItems m items)
      | registerHistories histories =>
          have hstate := histories_registerUsers { m with
            histories := histories.entries.foldl (fun h e => h.insert e.1 e.2) m.histories }
            histories.keys
          exact (congrArg (·.get? user) hstate).trans (Table.get?_foldl_insert_or _ _ user)
      | updateUsers userItems => cases hop
      | updateItems itemUsers rows => cases hop
      | validate user item => cases hop
      | predict user item => cases hop
      | preferenceLoss samples => cases hop
      | neighborLoss samples => cases hop
      | ridgeLoss => cases hop
      | loss samples => cases hop

/-- After some operations a user has **what was last recorded**, or what there was before. -/
theorem histories_after [Machine] {h : Hyper α} {g : α} {m : Model α n} (hm : m.Consistent h g)
    (ops : List (Operation ρ)) (user : Key) :
    (m.after ops).histories.get? user
      = (ops.reverse.findSome? (Operation.records user)).or (m.histories.get? user) := by
  induction ops generalizing m with
  | nil => rfl
  | cons op ops ih =>
      have hrest := ih (consistent_act hm op)
      rw [histories_act hm.aligned] at hrest
      rw [List.reverse_cons, List.findSome?_append, List.findSome?_singleton, Option.or_assoc]
      exact hrest

end

/-! ### Items to be compared with -/

/-- The items that a pair **may be compared with**, for a user who has had some: the other items
that are registered. -/
def others (m : Model α n) (had : List Key) (item : Key) : Finset Key :=
  (m.beta.domain \ had.toFinset).erase item

theorem mem_others {m : Model α n} {had : List Key} {item k : Key} :
    k ∈ m.others had item ↔ k ≠ item ∧ k ∈ m.beta ∧ k ∉ had := by
  rw [others, Finset.mem_erase, Finset.mem_sdiff, Table.mem_domain, List.mem_toFinset]

/-- The candidates of a pair are **the items that it may be compared with**. -/
theorem toFinset_candidates_unseen {m : Model α n} {user : Key} {had : List Key}
    (hhad : (m.histories.get? user).getD [] = had) (item : Key) :
    (candidates [item] (m.unseen user)).toFinset = m.others had item := by
  ext k
  rw [List.mem_toFinset, mem_candidates, mem_others, unseen, List.mem_filter, decide_eq_true_iff,
    hhad, List.mem_singleton, ← Table.mem_iff]
  exact and_comm

/-- The items that a pair is compared with **fill the placeholders** of a probe that opens with the
item of the pair. -/
theorem negativesFor_eq_probe [Machine] {m : Model α n} {negatives : ℕ}
    (h : m.hyper.negatives = negatives) (user item : Key) :
    m.negativesFor user item = (do
      roomFor negatives
      let filled ← sampleNegatives 1 negatives (item :: List.replicate negatives .missing)
        (m.unseen user) m.source
      return (filled.1.drop 1, filled.2)) := by
  have hrest : (item :: List.replicate negatives Key.missing).drop (1 + negatives) = [] := by
    rw [List.drop_eq_nil_iff, List.length_cons, List.length_replicate, Nat.add_comm]
  have hfill := sampleNegatives_eq_fillBy 1 negatives
    (item :: List.replicate negatives Key.missing) (m.unseen user) m.source
  rw [fillBy, hrest, List.append_nil, Nat.cast_one] at hfill
  rw [negativesFor, h, hfill]
  refine bind_congr fun _ => ?_
  rw [drawNegatives_natCast]
  rfl

end Model

/-- There is room for a probe that **memory holds**, unless its length is none. -/
theorem roomFor_natCast [Machine] (negatives : ℕ) : roomFor negatives
    = if 2 ^ 63 ≤ negatives then .error .overflow
      else if Machine.holds negatives then .ok () else .error .noMemory := by
  rw [roomFor, Int.toNat_natCast]
  simp only [Int.ofNat_le]
  rfl

/-! ### Scores -/

namespace Model

variable [Scalar α]

/-- The **score** of a pair; one that cannot be scored counts as zero. -/
def score (m : Model α n) (user item : Key) : α := (m.predict user item).getD 0

theorem score_of_get? {m : Model α n} {user item : Key} {u v : Vec α n}
    (hu : m.theta.get? user = some u) (hv : m.beta.get? item = some v) :
    m.score user item = Vec.dot u v := by
  rw [score, predict, hu, hv]
  rfl

/-- How many of some items a pair **beats**. -/
def beaten (m : Model α n) (user item : Key) (items : Finset Key) : ℕ :=
  (items.filter fun k => Scalar.lt (m.score user k) (m.score user item)).card

/-- How many of some items score **the same** as a pair. -/
def tied (m : Model α n) (user item : Key) (items : Finset Key) : ℕ :=
  (items.filter fun k => Scalar.eq (m.score user item) (m.score user k)).card

/-- No item is **beaten and tied** with at once. -/
theorem beaten_add_tied_le [Scalar.Shares α] (m : Model α n) (user item : Key)
    (items : Finset Key) : m.beaten user item items + m.tied user item items ≤ items.card := by
  rw [beaten, tied, ← Finset.card_union_of_disjoint]
  · exact Finset.card_le_card (Finset.union_subset (Finset.filter_subset _ _)
      (Finset.filter_subset _ _))
  · rw [Finset.disjoint_filter]
    intro k _ hlt heq
    rw [Scalar.Shares.eq_of_lt hlt] at heq
    cases heq

/-- The scores of registered items are **their scores as pairs**. -/
theorem scores_eq_map {m : Model α n} {user : Key} {u : Vec α n}
    (hu : m.theta.get? user = some u) {ks : List Key} (hks : ∀ k ∈ ks, k ∈ m.beta) :
    m.scores u ks = ks.map (m.score user) := by
  rw [scores, ← List.filterMap_eq_map]
  refine List.filterMap_congr fun k hk => ?_
  obtain ⟨v, hv⟩ := Table.exists_get? (hks k hk)
  rw [hv, Function.comp_apply, score_of_get? hu hv]
  rfl

/-- The members of a list without repetitions that pass a test, **as a set**. -/
theorem countP_eq_card_filter {ks : List Key} (h : ks.Nodup) (p : Key → Bool) :
    ks.countP p = (ks.toFinset.filter fun k => p k).card := by
  rw [← List.toFinset_filter, List.toFinset_card_of_nodup (h.filter p),
    List.countP_eq_length_filter]

/-- The loss of a pair that is compared with different items is how far **its share of them** falls
short. -/
theorem rankLoss_eq {m : Model α n} {user item : Key} {u : Vec α n}
    (hu : m.theta.get? user = some u) {ks : List Key} (hne : ks ≠ []) (hnodup : ks.Nodup)
    (hks : ∀ k ∈ ks, k ∈ m.beta)
    (hfinite : ∀ k ∈ m.beta, Scalar.finite (m.score user k) = true) :
    m.rankLoss user item (m.score user item) u ks = finiteLoss user item
      (Scalar.shortfall (m.beaten user item ks.toFinset) (m.tied user item ks.toFinset)
        ks.toFinset.card) := by
  have hall : (ks.map (m.score user)).all Scalar.finite = true := by
    rw [List.all_map, List.all_eq_true]
    exact fun k hk => hfinite k (hks k hk)
  have hmap : ks.map (m.score user) ≠ [] := fun h => hne (List.map_eq_nil_iff.1 h)
  have hauc := auc_singleton (m.score user item) hmap
  rw [List.countP_map, List.countP_map, List.length_map] at hauc
  rw [rankLoss, scores_eq_map hu hks]
  simp only [hall, Bool.not_true, Bool.false_eq_true, if_false, hauc]
  rw [Scalar.shortfall, beaten, tied, ← countP_eq_card_filter hnodup,
    ← countP_eq_card_filter hnodup, List.toFinset_card_of_nodup hnodup]
  rfl

/-! ### Losses -/

/-- A pair that is **not registered** has no loss. -/
theorem validate_of_not_registered [Machine] {m : Model α n} {user item : Key}
    (h : user ∉ m.theta ∨ item ∉ m.beta) : m.validate user item = (.ok none, m.source) := by
  rw [validate]
  rcases h with h | h
  · rw [Table.get?_eq_none_iff.2 h]
  · rw [Table.get?_eq_none_iff.2 h]
    cases m.theta.get? user <;> rfl

/-- A pair that is registered is **compared with the items sampled for it**. -/
theorem validate_of_registered [Machine] {m : Model α n} (hmetric : m.hyper.metric = .auc)
    {user item : Key} {u v : Vec α n} (hu : m.theta.get? user = some u)
    (hv : m.beta.get? item = some v) (hfinite : Scalar.finite (m.score user item) = true) :
    (m.validate user item).1 = (do
      let sampled ← m.negativesFor user item
      m.rankLoss user item (m.score user item) u sampled.1) := by
  have hexceptional : Scalar.exceptional? (m.score user item) = none :=
    Option.isNone_iff_eq_none.1 hfinite
  rw [score_of_get? hu hv] at hexceptional ⊢
  rw [validate]
  simp only [hu, hv, hexceptional, hmetric]
  cases m.negativesFor user item <;> rfl

/-- Where there is **no room**, the comparison of a pair that is registered fails. -/
theorem validate_of_no_room [Machine] {m : Model α n} (hmetric : m.hyper.metric = .auc)
    {negatives : ℕ} (hnegatives : m.hyper.negatives = negatives)
    (hlack : 2 ^ 63 ≤ negatives ∨ Machine.holds negatives = false) {user item : Key}
    (huser : user ∈ m.theta) (hitem : item ∈ m.beta)
    (hfinite : Scalar.finite (m.score user item) = true) :
    (m.validate user item).1
      = .error (if 2 ^ 63 ≤ negatives then .overflow else .noMemory) := by
  obtain ⟨u, hu⟩ := Table.exists_get? huser
  obtain ⟨v, hv⟩ := Table.exists_get? hitem
  rw [validate_of_registered hmetric hu hv hfinite, negativesFor, hnegatives, roomFor_natCast]
  by_cases hlength : 2 ^ 63 ≤ negatives
  · rw [if_pos hlength, if_pos hlength]
    rfl
  · rw [if_neg hlength, if_neg hlength, hlack.resolve_left hlength]
    rfl

/-- Where there is room, a pair that is registered is compared with **some of the items that it may
be compared with**, as many as are asked for or as there are. -/
theorem exists_sampled [Machine] [Scalar.Shares α] {m : Model α n}
    (hmetric : m.hyper.metric = .auc) {negatives : ℕ} (hnegatives : m.hyper.negatives = negatives)
    (hroom : roomFor negatives = .ok ()) {user item : Key} (huser : user ∈ m.theta)
    (hitem : item ∈ m.beta) {had : List Key} (hhad : (m.histories.get? user).getD [] = had)
    (hcountable : Scalar.Shares.Countable α (min negatives (m.others had item).card))
    (hfinite : ∀ k ∈ m.beta, Scalar.finite (m.score user k) = true) :
    ∃ sampled ⊆ m.others had item, sampled.card = min negatives (m.others had item).card ∧
      (m.validate user item).1 = if sampled = ∅ then .ok none else
        .ok (some (Scalar.shortfall (m.beaten user item sampled) (m.tied user item sampled)
          sampled.card)) := by
  obtain ⟨u, hu⟩ := Table.exists_get? huser
  obtain ⟨v, hv⟩ := Table.exists_get? hitem
  have hpool := toFinset_candidates_unseen hhad item
  set pool := candidates [item] (m.unseen user) with hcandidates
  have hnodup : pool.Nodup := nodup_candidates [item] (m.unseen user)
  have hcard : pool.length = (m.others had item).card := by
    rw [← hpool, List.toFinset_card_of_nodup hnodup]
  obtain ⟨hlength, hdistinct, hsub⟩ := Machine.legal.drawBy hnodup
    (Nat.min_le_right negatives pool.length) m.source
  set drawn := drawBy Machine.choose (min negatives pool.length) pool m.source with hdrawn
  have hothers : ∀ k ∈ drawn.1, k ∈ m.others had item := fun k hk => by
    rw [← hpool, List.mem_toFinset]
    exact hsub k hk
  have hvalidate : (m.validate user item).1
      = m.rankLoss user item (m.score user item) u drawn.1 := by
    rw [validate_of_registered hmetric hu hv (hfinite item hitem), negativesFor, hnegatives,
      hroom, drawNegatives_natCast]
    rfl
  have hsize : drawn.1.toFinset.card = min negatives (m.others had item).card := by
    rw [List.toFinset_card_of_nodup hdistinct, hlength, hcard]
  refine ⟨drawn.1.toFinset, fun k hk => hothers k (List.mem_toFinset.1 hk), hsize, ?_⟩
  rw [hvalidate]
  by_cases hnil : drawn.1 = []
  · rw [hnil, if_pos List.toFinset_nil]
    rfl
  · have hne : drawn.1.toFinset ≠ ∅ := fun h => hnil (List.toFinset_eq_empty_iff _ |>.1 h)
    have hcounts := m.beaten_add_tied_le user item drawn.1.toFinset
    have hpos := Finset.card_pos.2 (Finset.nonempty_iff_ne_empty.2 hne)
    have hloss := Scalar.Shares.finite_shortfall (α := α) hcounts hpos (hsize ▸ hcountable)
    rw [if_neg hne, rankLoss_eq hu hnil hdistinct (fun k hk => (mem_others.1 (hothers k hk)).2.1)
      hfinite, finiteLoss, if_pos hloss]

section

variable [Machine] [Scalar.Shares α] {m : Model α n} {negatives : ℕ} {user item : Key}
  {had : List Key} (hmetric : m.hyper.metric = .auc) (hnegatives : m.hyper.negatives = negatives)
  (hroom : roomFor negatives = .ok ()) (hhad : (m.histories.get? user).getD [] = had)
  (hcountable : Scalar.Shares.Countable α (min negatives (m.others had item).card))
  (hfinite : ∀ k ∈ m.beta, Scalar.finite (m.score user k) = true)

include hmetric hnegatives hroom hhad hcountable hfinite

/-- A pair has no loss just if it is not registered, or if there is **nothing to compare it
with**. -/
theorem validate_eq_none_iff (hone : 1 ≤ negatives) :
    (m.validate user item).1 = .ok none ↔
      user ∉ m.theta ∨ item ∉ m.beta ∨ m.others had item = ∅ := by
  by_cases hregistered : user ∈ m.theta ∧ item ∈ m.beta
  · obtain ⟨huser, hitem⟩ := hregistered
    obtain ⟨sampled, -, hcard, hvalidate⟩ :=
      exists_sampled hmetric hnegatives hroom huser hitem hhad hcountable hfinite
    have hempty : sampled = ∅ ↔ m.others had item = ∅ := by
      rw [← Finset.card_eq_zero, ← Finset.card_eq_zero, hcard]
      omega
    rw [hvalidate, ← hempty, or_iff_right (not_not_intro huser),
      or_iff_right (not_not_intro hitem)]
    by_cases hsampled : sampled = ∅
    · rw [if_pos hsampled]
      exact iff_of_true rfl hsampled
    · rw [if_neg hsampled]
      exact iff_of_false nofun hsampled
  · have hcases : user ∉ m.theta ∨ item ∉ m.beta := not_and_or.1 hregistered
    rw [validate_of_not_registered hcases]
    exact iff_of_true rfl (or_assoc.1 (.inl hcases))

/-- A pair that can be compared with some item has **a loss between zero and one**. -/
theorem exists_loss (hone : 1 ≤ negatives) (huser : user ∈ m.theta) (hitem : item ∈ m.beta)
    (hothers : (m.others had item).Nonempty) :
    ∃ sampled ⊆ m.others had item, sampled.card = min negatives (m.others had item).card ∧
      ∃ loss, (m.validate user item).1 = .ok (some loss) ∧
        loss = Scalar.shortfall (m.beaten user item sampled) (m.tied user item sampled)
          sampled.card ∧
        Scalar.le 0 loss = true ∧ Scalar.le loss 1 = true := by
  obtain ⟨sampled, hsub, hcard, hvalidate⟩ :=
    exists_sampled hmetric hnegatives hroom huser hitem hhad hcountable hfinite
  have hpos : 0 < sampled.card := by
    rw [hcard]
    exact Nat.lt_min.2 ⟨hone, Finset.card_pos.2 hothers⟩
  have hsize : Scalar.Shares.Countable α sampled.card := hcard ▸ hcountable
  rw [if_neg (Finset.card_pos.1 hpos).ne_empty] at hvalidate
  have hcounts := m.beaten_add_tied_le user item sampled
  exact ⟨sampled, hsub, hcard, _, hvalidate, rfl,
    Scalar.Shares.zero_le_shortfall hcounts hpos hsize,
    Scalar.Shares.shortfall_le_one hcounts hpos hsize⟩

/-- Where **all items are sampled**, the source does not matter. -/
theorem validate_withSource (hall : (m.others had item).card ≤ negatives) (source : Source) :
    ((m.withSource source).validate user item).1 = (m.validate user item).1 := by
  by_cases hregistered : user ∈ m.theta ∧ item ∈ m.beta
  · obtain ⟨huser, hitem⟩ := hregistered
    obtain ⟨sampled, hsub, hcard, hvalidate⟩ :=
      exists_sampled hmetric hnegatives hroom huser hitem hhad hcountable hfinite
    obtain ⟨sampled', hsub', hcard', hvalidate'⟩ := exists_sampled (m := m.withSource source)
      hmetric hnegatives hroom huser hitem hhad hcountable hfinite
    rw [Nat.min_eq_right hall] at hcard
    have hsampled : sampled = m.others had item :=
      Finset.eq_of_subset_of_card_le hsub hcard.ge
    have hsampled' : sampled' = m.others had item :=
      Finset.eq_of_subset_of_card_le hsub' (hcard'.trans (Nat.min_eq_right hall)).ge
    rw [hvalidate, hvalidate', hsampled, hsampled']
    rfl
  · have hcases : user ∉ m.theta ∨ item ∉ m.beta := not_and_or.1 hregistered
    rw [validate_of_not_registered hcases,
      validate_of_not_registered (m := m.withSource source) hcases]

end

end Model

/-- **A comparison is exact, and fair.** After any operations on the model of some settings that
asks for ranks, and wherever its source has come to, a pair whose scores are finite has no loss just
if it is not registered, or if no other item is registered that the user was not last recorded to
have. Otherwise there are so many of these items, or all of them if they are fewer than are asked
for, that the loss is how far the share of them that the pair beats falls short of one; so it is not
below zero and not above one, and it does not depend on the source where all of them are sampled.
Nothing but the source changes. If more items are asked for than the memory of the machine holds,
every pair that is registered makes the comparison fail. -/
theorem comparison_is_exact [Machine] [Numeral α] [Numeral.Ordered α] [Scalar.Shares α]
    [Operand ρ α] {s : Settings α} {init : Option (VectorInit α)} {source : Source} {m₀ : Model α n}
    (hm : Model.ofSettings s init source = .ok ⟨n, m₀⟩)
    (hmetric : Metric.ofSetting (s .metric) = .ok .auc) (ops : List (Operation ρ)) (now : Source)
    (user item : Key)
    (hfinite : ∀ k ∈ (m₀.after ops).beta, Scalar.finite ((m₀.after ops).score user k) = true) :
    let m := (m₀.after ops).withSource now
    let others := m.others (recorded ops user) item
    ∃ negatives : ℕ, (s .negatives).whole = .ok negatives ∧
      (m.act (.validate user item : Operation ρ)).state = m.withSource (m.validate user item).2 ∧
      (negatives < 2 ^ 63 → Machine.holds negatives = true →
        Scalar.Shares.Countable α (min negatives others.card) →
        ((m.validate user item).1 = .ok none ↔ user ∉ m.theta ∨ item ∉ m.beta ∨ others = ∅) ∧
        (user ∈ m.theta → item ∈ m.beta → others.Nonempty →
          ∃ sampled ⊆ others, sampled.card = min negatives others.card ∧
            ∃ loss, (m.validate user item).1 = .ok (some loss) ∧
              loss = Scalar.shortfall (m.beaten user item sampled) (m.tied user item sampled)
                sampled.card ∧
              Scalar.le 0 loss = true ∧ Scalar.le loss 1 = true) ∧
        (others.card ≤ negatives → ∀ source,
          ((m.withSource source).validate user item).1 = (m.validate user item).1)) ∧
      (2 ^ 63 ≤ negatives ∨ Machine.holds negatives = false →
        (user ∉ m.theta ∨ item ∉ m.beta → (m.validate user item).1 = .ok none) ∧
        (user ∈ m.theta → item ∈ m.beta → (m.validate user item).1
          = .error (if 2 ^ 63 ≤ negatives then .overflow else .noMemory))) := by
  intro m others
  obtain ⟨h, g, hs, hconsistent, -⟩ := consistent_after_operations hm ops
  obtain ⟨h₀, g₀, hempty, -⟩ := Model.ofSettings_eq_ok hm
  have hstart : m₀ = Model.empty h₀ g₀ source := eq_of_heq (Sigma.mk.inj hempty).2
  have hhyper : m.hyper = h := hconsistent.hyper
  have hauc : m.hyper.metric = .auc := by
    rw [hhyper]
    exact Except.ok.inj (hs.metric.symm.trans hmetric)
  have hhad : (m.histories.get? user).getD [] = recorded ops user := by
    change ((m₀.after ops).histories.get? user).getD [] = _
    have hnone : (Model.empty h₀ g₀ source : Model α n).histories.get? user = none := rfl
    rw [hstart, Model.histories_after (Model.consistent_empty h₀ g₀ source), hnone, Option.or_none,
      recorded]
  have hone : 1 ≤ h.negatives :=
    Setting.one_le_whole (Model.below_negatives_of_ofSettings hm hmetric) hs.negatives
  obtain ⟨negatives, hnegatives⟩ := Int.eq_ofNat_of_zero_le (zero_le_one.trans hone)
  have hasked : m.hyper.negatives = negatives := by rw [hhyper, hnegatives]
  have hone : 1 ≤ negatives := by omega
  refine ⟨negatives, by rw [hs.negatives, hnegatives], rfl,
    fun hlength hholds hcountable => ?_, fun hlack => ⟨?_, ?_⟩⟩
  · have hroom : roomFor negatives = .ok () := by
      rw [roomFor_natCast, if_neg hlength.not_ge, if_pos hholds]
    exact ⟨Model.validate_eq_none_iff hauc hasked hroom hhad hcountable hfinite hone,
      Model.exists_loss hauc hasked hroom hhad hcountable hfinite hone,
      Model.validate_withSource hauc hasked hroom hhad hcountable hfinite⟩
  · intro h
    rw [Model.validate_of_not_registered h]
  · intro huser hitem
    exact Model.validate_of_no_room hauc hasked hlack huser hitem (hfinite item hitem)

/-- Settings that ask for ranks among **so many items**, and do without biases. -/
noncomputable def Settings.asking (negatives : ℕ) : Settings ℝ :=
  (((Settings.ones .auc 1).set .negatives (.integer negatives)).set .useBias (.flag false)).set
    .updateGlobalBias (.flag false)

/-- The model of these settings. -/
noncomputable def Model.asking (negatives : ℕ) : Model ℝ 1 :=
  Model.empty ⟨1, 1, 1, 1, 1, ⟨.gaussian, 1, 1, 1⟩, .auc, negatives, false, false⟩ 1 ⟨7, 0⟩

theorem Model.ofSettings_settingsAsking [Spelling] {negatives : ℕ} (h : 1 ≤ negatives) :
    Model.ofSettings (Settings.asking negatives) (some ⟨.gaussian, 1, 1, 1⟩) ⟨7, 0⟩
      = .ok ⟨1, Model.asking negatives⟩ :=
  Model.ofSettings_asking .auc 1 (by exact_mod_cast h) false ⟨7, 0⟩

/-- The history of a user is **recorded anew**, and what is left to be compared with is the one item
that was in it before. -/
theorem comparison_is_exact_again :
    letI := Spelling.silent
    let user := Key.text "u"
    let item := Key.text "b"
    let ops : List (Operation ℝ) :=
      [.registerHistories (.ofList [(user, [.text "c"])]),
        .registerItems [.text "a", item, .text "c"],
        .registerHistories (.ofList [(user, [.text "a"])])]
    Model.ofSettings (Settings.asking 2) (some ⟨.gaussian, 1, 1, 1⟩) ⟨7, 0⟩
        = .ok ⟨1, Model.asking 2⟩ ∧
      recorded ops user = [.text "a"] ∧
      ∃ m, m = ((Model.asking 2).after ops).withSource ⟨11, 4⟩ ∧
        m.others (recorded ops user) item = {.text "c"} ∧
        ∃ loss, (m.validate user item).1 = .ok (some loss) ∧
          (∀ source, ((m.withSource source).validate user item).1 = .ok (some loss)) ∧
          loss = Scalar.shortfall (m.beaten user item {.text "c"})
            (m.tied user item {.text "c"}) 1 ∧
          Scalar.le 0 loss = true ∧ Scalar.le loss 1 = true := by
  let _ := Spelling.silent
  intro user item ops
  have hm := Model.ofSettings_settingsAsking (show 1 ≤ 2 by decide)
  have hmetric : Metric.ofSetting (Settings.asking 2 .metric) = .ok .auc := ofSetting_ones .auc 1
  have hrecorded : recorded ops user = [.text "a"] := rfl
  obtain ⟨negatives, hwhole, -, hroom, -⟩ := comparison_is_exact hm hmetric ops ⟨11, 4⟩ user item
    fun k _ => Scalar.finite_real _
  obtain rfl : negatives = 2 := Int.ofNat.inj (Except.ok.inj (hwhole.symm.trans rfl))
  obtain ⟨-, hloss, hfree⟩ := hroom (by norm_num) rfl trivial
  have htheta : (((Model.asking 2).after ops).withSource ⟨11, 4⟩).theta.keys = [user] := rfl
  have hbeta : (((Model.asking 2).after ops).withSource ⟨11, 4⟩).beta.keys
      = [.text "a", item, .text "c"] := rfl
  refine ⟨hm, hrecorded, _, rfl, ?_⟩
  generalize ((Model.asking 2).after ops).withSource ⟨11, 4⟩ = m at hloss hfree htheta hbeta ⊢
  have hothers : m.others (recorded ops user) item = {.text "c"} := by
    rw [hrecorded, Model.others, Table.domain, hbeta]
    decide
  rw [hothers] at hloss hfree
  have huser : user ∈ m.theta := Table.mem_iff.2 (htheta ▸ List.mem_cons_self)
  have hitem : item ∈ m.beta := Table.mem_iff.2 (hbeta ▸ by decide)
  obtain ⟨sampled, hsub, hcard, loss, hvalidate, heq, hbounds⟩ :=
    hloss huser hitem (Finset.singleton_nonempty _)
  obtain rfl : sampled = {.text "c"} :=
    Finset.eq_of_subset_of_card_le hsub (by rw [hcard]; decide)
  exact ⟨hothers, loss, hvalidate, fun source => (hfree (by decide) source).trans hvalidate, heq,
    hbounds⟩

/-! ### Comparisons that fail -/

/-- A pair whose vectors are finite, and which **may be compared** with some item. -/
structure Model.HasRival [Scalar α] (m : Model α n) (had : List Key) (user item : Key) :
    Prop where
  finite : ∀ v ∈ m.theta.values ++ m.beta.values, ∀ x ∈ v.toList, Scalar.finite x = true
  mem_theta : user ∈ m.theta
  mem_beta : item ∈ m.beta
  nonempty : (m.others had item).Nonempty

/-- Every pair that may be compared with some item **has a loss**. -/
def AlwaysCompared (α : Type) [Machine] [Numeral α] [Operand α α] : Prop :=
  ∀ (s : Settings α) (init : VectorInit α) (p : (n : ℕ) × Model α n) (ops : List (Operation α))
    (user item : Key), Model.ofSettings s (some init) ⟨7, 0⟩ = .ok p →
    Metric.ofSetting (s .metric) = .ok .auc →
    (p.2.after ops).HasRival (recorded ops user) user item →
      ∃ loss, ((p.2.after ops).validate user item).1 = .ok (some loss)

/-- A user is registered, and two items. -/
def Operation.meeting : List (Operation ρ) :=
  [.registerUsers [.text "u"], .registerItems [.text "a", .text "b"]]

/-- Vectors of floating point numbers **so long** that their inner products are not finite. -/
def VectorInit.long : VectorInit Float := ⟨.gaussian, 1, 1e200, 0⟩

/-- The scores of long vectors are **not finite**. -/
theorem validate_long :
    (Model.ofSettings (Settings.standard.set .factor (.integer 1)) (some .long) ⟨7, 0⟩).toOption.any
      (fun p => let m := p.2.after (Operation.meeting : List (Operation Float))
        decide ((∀ v ∈ m.theta.values ++ m.beta.values, ∀ x ∈ v.toList, Scalar.finite x = true) ∧
          .text "u" ∈ m.theta ∧ .text "a" ∈ m.beta ∧ .text "b" ∈ m.others [] (.text "a") ∧
          (m.validate (.text "u") (.text "a")).1.toOption.isNone = true)) = true := by
  decide +kernel

/-- Where **no list** has as many items as are to be sampled, the user and one of the items are not
compared with the other one. -/
theorem Model.validate_meeting [Machine] {negatives : ℕ} (hlack : 2 ^ 63 ≤ negatives) :
    let m := (Model.asking negatives).after (Operation.meeting : List (Operation ℝ))
    m.HasRival [] (.text "u") (.text "a") ∧ (m.validate (.text "u") (.text "a")).1
      = .error .overflow := by
  intro m
  have huser : .text "u" ∈ m.theta := Table.mem_iff.2 List.mem_cons_self
  have hitem : .text "a" ∈ m.beta := Table.mem_iff.2 List.mem_cons_self
  have hother : .text "b" ∈ m.beta := Table.mem_iff.2 (List.mem_cons_of_mem _ List.mem_cons_self)
  exact ⟨⟨fun _ _ _ _ => rfl, huser, hitem, _,
    Model.mem_others.2 ⟨by decide, hother, List.not_mem_nil⟩⟩,
    (Model.validate_of_no_room rfl rfl (.inl hlack) huser hitem rfl).trans
      (by rw [if_pos hlack])⟩

/-- A pair that may be compared with some item **does not always have a loss**: vectors may be so
long that its score is not finite, and also in exact arithmetic more items may be asked for than a
list can have. -/
theorem not_alwaysCompared :
    letI := Spelling.silent
    ¬ AlwaysCompared Float ∧ ¬ AlwaysCompared ℝ := by
  let _ := Spelling.silent
  constructor
  · intro h
    obtain ⟨p, hmodel, hfails⟩ := exists_ok_of_any validate_long
    obtain ⟨hfinite, huser, hitem, hother, hnone⟩ := of_decide_eq_true hfails
    obtain ⟨loss, hloss⟩ := h _ .long p Operation.meeting (.text "u") (.text "a") hmodel rfl
      ⟨hfinite, huser, hitem, _, hother⟩
    rw [hloss] at hnone
    cases hnone
  · intro h
    have hask : 1 ≤ 2 ^ 63 := by norm_num
    obtain ⟨hpair, hfails⟩ := Model.validate_meeting (le_refl (2 ^ 63))
    obtain ⟨loss, hloss⟩ := h (Settings.asking (2 ^ 63)) _ _ Operation.meeting (.text "u")
      (.text "a") (Model.ofSettings_settingsAsking hask) rfl hpair
    cases hfails.symm.trans hloss

end CoEmbed
