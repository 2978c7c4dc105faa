import CoEmbed.Proofs.Exact.Factors
import CoEmbed.Proofs.Exact.Setting
import CoEmbed.Proofs.Masked
import CoEmbed.Proofs.Placeholders

/-!
# Best Items

In exact arithmetic a recommender suggests the best of the items that a user has not had: so many as
are asked for or as there are, and none is left out that scores higher than one that is suggested.
Scores may be equal, and then the items stand in whatever order the ranking puts them.

* `Fitted.affinity` — the score of an item for a user, or for a history if the user is not known.
* `Ranks`, `ranks_descending` — a way to rank items by their scores, whatever it does with ties.
* `Fitted.audible` — no score is negative infinity.
* `Fitted.Best` — the best items outside a history.
* `Argsort`, `Fitted.recommendMasked` — all items are ranked, with the history masked, and the
  ranking is cut before the first masked one.
* `Fitted.unmasked`, `Fitted.recommendMasked_eq` — what is in front of the cut.
* `recommend_is_best` — what is suggested is best, for every ranking and every way of sorting
  places.

## Masking convention

A masked item has a score that is below all others. Sorting the places of all items may mix masked
items among each other, but never with the rest.
-/

open Matrix

namespace CoEmbed

/-! ### Rankings -/

/-- A way to **rank items** by their scores: the highest come first, and ties are broken anyhow. -/
structure Ranks (ranking : List (Key × ℝ) → List (Key × ℝ)) : Prop where
  perm : ∀ xs, (ranking xs).Perm xs
  sorted : ∀ xs, (ranking xs).Pairwise fun a b => b.2 ≤ a.2

/-- In exact arithmetic a score precedes another just if it is **lower**. -/
theorem precedes_real (a b : ℝ) : Fitted.precedes a b = decide (a < b) := by
  have hnumber : (Scalar.exceptional? b == some .notANumber) = false := rfl
  rw [Fitted.precedes, hnumber, Bool.and_false, Bool.or_false]
  rfl

/-- The highest scores come first **in descending order**. -/
theorem ranks_descending : Ranks (Fitted.descending (α := ℝ)) where
  perm := Fitted.descending_perm
  sorted xs := by
    rw [Fitted.descending, List.pairwise_reverse]
    refine (List.pairwise_mergeSort ?_ ?_ xs).imp fun h => ?_
    · intro a b c hab hbc
      simp only [precedes_real, Bool.not_eq_true', decide_eq_false_iff_not, not_lt] at hab hbc ⊢
      exact hab.trans hbc
    · intro a b
      simp only [precedes_real, Bool.or_eq_true, Bool.not_eq_true', decide_eq_false_iff_not, not_lt]
      exact le_total _ _
    · simpa only [precedes_real, Bool.not_eq_true', decide_eq_false_iff_not, not_lt] using h

/-- A way to **sort places** by the scores that stand there, the lowest first. -/
structure Argsort.Legal (argsort : List (WithBot ℝ) → List ℕ) : Prop where
  perm : ∀ scores, (argsort scores).Perm (List.range scores.length)
  sorted : ∀ scores, ((argsort scores).map fun p => scores.getD p ⊥).Pairwise (· ≤ ·)

/-- Places are sorted by **the scores that stand there**, those of equal scores from the front. -/
noncomputable def Argsort.stable (scores : List (WithBot ℝ)) : List ℕ :=
  (List.range scores.length).mergeSort fun p q => decide (scores.getD p ⊥ ≤ scores.getD q ⊥)

theorem Argsort.legal_stable : Argsort.Legal Argsort.stable where
  perm scores := List.mergeSort_perm _ _
  sorted scores := by
    rw [List.pairwise_map]
    refine (List.pairwise_mergeSort ?_ ?_ _).imp of_decide_eq_true
    · intro p q t hpq hqt
      exact decide_eq_true ((of_decide_eq_true hpq).trans (of_decide_eq_true hqt))
    · intro p q
      rw [Bool.or_eq_true, decide_eq_true_iff, decide_eq_true_iff]
      exact le_total _ _

namespace Fitted

variable (f : Fitted ℝ)

/-! ### Scores -/

/-- The **score** of an item: the inner product with the vector of a known user, and the mean of
those with the known members of the history for a user who is not known. -/
noncomputable def affinity (user : Key) (history : List Key) (item : Key) : ℝ :=
  if user ∈ f.model.theta then f.model.theta.vectorAt user ⬝ᵥ f.model.beta.vectorAt item
  else ((f.familiar history).map fun k =>
      f.model.beta.vectorAt k ⬝ᵥ f.model.beta.vectorAt item).sum / (f.familiar history).length

variable {f}

/-- The vectors of a history are those of its **known members**. -/
theorem coords_known (history : List Key) :
    (f.known history).map Vec.coords = (f.familiar history).map f.model.beta.vectorAt := by
  induction history with
  | nil => rfl
  | cons k history ih =>
      by_cases hk : k ∈ f.model.beta
      · obtain ⟨v, hv⟩ := Table.exists_get? hk
        rw [known, List.filterMap_cons_some hv, familiar,
          List.filter_cons_of_pos (by simpa using hk), List.map_cons, List.map_cons,
          Factors.vectorAt_of_get? hv]
        exact congrArg _ ih
      · rw [known, List.filterMap_cons_none (Table.get?_eq_none_iff.2 hk), familiar,
          List.filter_cons_of_neg (by simpa using hk)]
        exact ih

/-- The mean of some vectors has **the mean of their inner products**. -/
theorem meanVector_dotProduct {n : ℕ} (vs : List (Vec ℝ n)) (x : Fin n → ℝ) :
    (meanVector vs).coords ⬝ᵥ x = ((vs.map Vec.coords).map (· ⬝ᵥ x)).sum / vs.length := by
  have hsum : (vs.foldl Vec.add Vec.zero).coords = (vs.map Vec.coords).sum := by
    rw [coords_foldl _ Vec.coords fun u v => Vec.coords_add u v, Vec.coords_zero, zero_add]
  have hdot : (vs.map Vec.coords).sum ⬝ᵥ x = ((vs.map Vec.coords).map (· ⬝ᵥ x)).sum := by
    induction vs.map Vec.coords with
    | nil => exact zero_dotProduct x
    | cons u us ih => rw [List.sum_cons, add_dotProduct, ih, List.map_cons, List.sum_cons]
  rw [meanVector, Vec.coords_divide, hsum, smul_dotProduct, hdot, Scalar.ofNat_real, smul_eq_mul,
    mul_comm, ← div_eq_mul_inv]

/-- There is a profile just if **the user or a member of the history** is known. -/
theorem profile_eq_none_iff {user : Key} {history : List Key} :
    f.profile user history = none ↔
      ¬ (user ∈ f.model.theta ∨ ∃ k ∈ history, k ∈ f.model.beta) := by
  have hknown : f.known history = [] ↔ ¬ ∃ k ∈ history, k ∈ f.model.beta := by
    rw [known, List.filterMap_eq_nil_iff]
    simp only [Table.get?_eq_none_iff, not_exists, not_and]
  rw [profile, not_or, ← hknown, ← Table.get?_eq_none_iff]
  cases f.model.theta.get? user with
  | some v => exact iff_of_false (Option.some_ne_none v) fun h => absurd h.1 (Option.some_ne_none v)
  | none =>
      cases f.known history with
      | nil => exact iff_of_true rfl ⟨rfl, rfl⟩
      | cons w ws =>
          exact iff_of_false (Option.some_ne_none _) fun h => absurd h.2 (List.cons_ne_nil w ws)

/-- A profile **scores items** as the user or the history does. -/
theorem dot_profile {user : Key} {history : List Key} {v : Vec ℝ f.factor}
    (hv : f.profile user history = some v) {e : Key × Vec ℝ f.factor}
    (he : e ∈ f.model.beta.entries) : Vec.dot e.2 v = f.affinity user history e.1 := by
  have hitem := Factors.vectorAt_of_get? (Table.get?_of_mem_entries he)
  rw [profile] at hv
  rw [Vec.dot_eq, dotProduct_comm, ← hitem]
  cases hu : f.model.theta.get? user with
  | some u =>
      rw [hu] at hv
      obtain rfl := Option.some.inj hv
      rw [affinity, if_pos (Table.mem_of_get? hu), Factors.vectorAt_of_get? hu]
  | none =>
      have hmean : v = meanVector (f.known history) := by
        simp only [hu] at hv
        split at hv
        · cases hv
        · exact (Option.some.inj hv).symm
      have hlength : (f.known history).length = (f.familiar history).length := by
        have := congrArg List.length (coords_known (f := f) history)
        rwa [List.length_map, List.length_map] at this
      rw [affinity, if_neg (Table.get?_eq_none_iff.1 hu), hmean, meanVector_dotProduct,
        coords_known, hlength, List.map_map]
      rfl

/-- No score is **negative infinity**. -/
theorem audible [Spelling] (user : Key) (history : List Key) : f.Audible user history :=
  fun _ _ _ _ => nofun

/-! ### Best items -/

/-- The **best items** outside a history: different items, the highest scores first, so many as are
asked for or as there are, and none is left out that scores higher. -/
structure Best (f : Fitted ℝ) (score : Key → ℝ) (history : List Key) (count : ℤ)
    (result : List Key) : Prop where
  length : (result.length : ℤ)
    = max 0 (min count (f.model.beta.domain \ history.toFinset).card)
  nodup : result.Nodup
  outside : ∀ i ∈ result, i ∈ f.model.beta ∧ i ∉ history
  sorted : result.Pairwise fun i j => score j ≤ score i
  highest : ∀ i ∈ f.model.beta, i ∉ history → i ∉ result → ∀ j ∈ result, score i ≤ score j

/-- Each item outside the history is scored **as the profile has it**. -/
theorem snd_of_mem_scored {user : Key} {history : List Key} {v : Vec ℝ f.factor}
    (hv : f.profile user history = some v) {a : Key × ℝ} (ha : a ∈ f.scored v history) :
    a.2 = f.affinity user history a.1 := by
  obtain ⟨e, he, rfl⟩ := List.mem_map.1 ha
  exact dot_profile hv (List.mem_of_mem_filter he)

/-- The first of the items outside a history **are the best**, once they are ranked. -/
theorem best_take {user : Key} {history : List Key} {v : Vec ℝ f.factor}
    (hv : f.profile user history = some v) {ranked : List (Key × ℝ)}
    (hperm : ranked.Perm (f.scored v history)) (hsorted : ranked.Pairwise fun a b => b.2 ≤ a.2)
    (count : ℤ) :
    f.Best (f.affinity user history) history count ((ranked.take count.toNat).map Prod.fst) := by
  have hscore : ∀ a ∈ ranked, a.2 = f.affinity user history a.1 := fun a ha =>
    snd_of_mem_scored hv (hperm.subset ha)
  have hkeys : (ranked.map Prod.fst).Perm ((f.scored v history).map Prod.fst) := hperm.map _
  have hsub : List.Sublist ((ranked.take count.toNat).map Prod.fst) (ranked.map Prod.fst) :=
    (List.take_sublist _ _).map _
  refine ⟨?_, ?_, fun i hi => ?_, ?_, fun i hitem hfresh hout j hj => ?_⟩
  · rw [List.length_map, List.length_take, hperm.length_eq, length_scored]
    omega
  · exact (hkeys.nodup_iff.2 (nodup_map_fst_scored v history)).sublist hsub
  · exact mem_map_fst_scored.1 (hkeys.subset (hsub.subset hi))
  · rw [List.pairwise_map]
    refine (hsorted.sublist (List.take_sublist _ _)).imp_of_mem fun ha hb h => ?_
    rwa [← hscore _ (List.mem_of_mem_take ha), ← hscore _ (List.mem_of_mem_take hb)]
  · -- an item that is left out stands behind those that are taken
    obtain ⟨a, ha, rfl⟩ := List.mem_map.1 (hkeys.symm.subset (mem_map_fst_scored.2 ⟨hitem, hfresh⟩))
    obtain ⟨b, hb, rfl⟩ := List.mem_map.1 hj
    have hbehind : a ∈ ranked.drop count.toNat := by
      rw [← List.take_append_drop count.toNat ranked] at ha
      exact (List.mem_append.1 ha).resolve_left fun h => hout (List.mem_map_of_mem h)
    rw [← List.take_append_drop count.toNat ranked, List.pairwise_append] at hsorted
    rw [← hscore a (List.mem_of_mem_drop hbehind), ← hscore b (List.mem_of_mem_take hb)]
    exact hsorted.2.2 b hb a hbehind

/-! ### Masked items -/

variable (f)

/-- The score of an item, or **the bottom** if it is in the history. -/
noncomputable def maskedScore (v : Vec ℝ f.factor) (history : List Key)
    (e : Key × Vec ℝ f.factor) : WithBot ℝ :=
  if e.1 ∈ history then ⊥ else (Vec.dot e.2 v : ℝ)

/-- The scores of all items, with those of a history **masked**. -/
noncomputable def scores (v : Vec ℝ f.factor) (history : List Key) : List (WithBot ℝ) :=
  f.model.beta.entries.map (f.maskedScore v history)

/-- What is suggested if **all items** are sorted, the history masked, and no more are taken than
there are items that are not masked. -/
noncomputable def recommendMasked (argsort : List (WithBot ℝ) → List ℕ) (user : Key)
    (history : List Key) (count : ℤ) : List Key :=
  match f.profile user history with
  | none => []
  | some v =>
    let room := min count (f.items.length - (f.familiar history).toFinset.card)
    if room ≤ 0 then []
    else ((argsort (f.scores v history)).reverse.take room.toNat).filterMap fun p => f.items[p]?

variable {f}

/-- As many items are not masked as there are **outside the history**. -/
theorem length_sub_familiar (history : List Key) :
    (f.items.length : ℤ) - (f.familiar history).toFinset.card
      = (f.model.beta.domain \ history.toFinset).card := by
  have hitems : f.items.length = f.model.beta.domain.card :=
    (List.toFinset_card_of_nodup f.model.beta.nodup_keys).symm
  have hsplit := Finset.card_sdiff_add_card_inter f.model.beta.domain history.toFinset
  rw [hitems, toFinset_familiar]
  omega

/-- Sorted places list **all items**, the highest scores first. -/
theorem exists_sorted_entries {argsort : List (WithBot ℝ) → List ℕ} (h : Argsort.Legal argsort)
    (v : Vec ℝ f.factor) (history : List Key) :
    let es := (argsort (f.scores v history)).reverse.filterMap fun p => f.model.beta.entries[p]?
    es.Perm f.model.beta.entries ∧
      es.Pairwise fun a b => f.maskedScore v history b ≤ f.maskedScore v history a := by
  intro es
  have hlength : (f.scores v history).length = f.model.beta.entries.length := List.length_map _
  constructor
  · have hplaces := (List.reverse_perm _).trans (h.perm (f.scores v history))
    rw [hlength] at hplaces
    exact (hplaces.filterMap _).trans (List.Perm.of_eq (filterMap_getElem?_range _))
  · have hscore : ∀ {p : ℕ} {e}, f.model.beta.entries[p]? = some e →
        (f.scores v history).getD p ⊥ = f.maskedScore v history e := fun he => by
      rw [scores, List.getD_eq_getElem?_getD, List.getElem?_map, he]
      rfl
    rw [List.pairwise_filterMap, List.pairwise_reverse]
    refine (List.pairwise_map.1 (h.sorted (f.scores v history))).imp fun hle a ha b hb => ?_
    rwa [hscore ha, hscore hb] at hle

/-- The members of a list at **the first of some places** are the first of its members there. -/
theorem filterMap_take_getElem? {κ : Type} {xs : List κ} {places : List ℕ}
    (h : ∀ p ∈ places, p < xs.length) (count : ℕ) :
    (places.take count).filterMap (fun p => xs[p]?)
      = (places.filterMap fun p => xs[p]?).take count := by
  induction places generalizing count with
  | nil => simp
  | cons p places ih =>
      obtain ⟨x, hp⟩ : ∃ x, xs[p]? = some x :=
        ⟨_, List.getElem?_eq_getElem (h p List.mem_cons_self)⟩
      cases count with
      | zero => rfl
      | succ count =>
          rw [List.take_succ_cons, List.filterMap_cons_some hp, List.filterMap_cons_some hp,
            List.take_succ_cons, ih fun q hq => h q (List.mem_cons_of_mem p hq)]

/-- In a list that is sorted by masked scores the masked items **come last**. -/
theorem filter_append_filter_of_masked {v : Vec ℝ f.factor} {history : List Key}
    {es : List (Key × Vec ℝ f.factor)}
    (h : es.Pairwise fun a b => f.maskedScore v history b ≤ f.maskedScore v history a) :
    es.filter (fun e => decide (e.1 ∉ history)) ++ es.filter (fun e => !decide (e.1 ∉ history))
      = es := by
  refine filter_append_filter_of_pairwise (h.imp fun {a b} hle hb => ?_)
  by_contra ha
  have hmasked : f.maskedScore v history a = ⊥ := if_pos (by simpa using ha)
  have hscored : f.maskedScore v history b = (Vec.dot b.2 v : ℝ) := if_neg (of_decide_eq_true hb)
  rw [hscored, hmasked] at hle
  exact WithBot.not_coe_le_bot _ hle

/-- As many places are taken as are asked for, **or as items are not masked**. -/
theorem recommendMasked_of_profile {user : Key} {history : List Key} {v : Vec ℝ f.factor}
    (hv : f.profile user history = some v) (argsort : List (WithBot ℝ) → List ℕ) (count : ℤ) :
    f.recommendMasked argsort user history count
      = ((argsort (f.scores v history)).reverse.take (min count
          (f.model.beta.domain \ history.toFinset).card).toNat).filterMap fun p => f.items[p]? := by
  rw [recommendMasked, hv]
  dsimp only
  rw [length_sub_familiar]
  split
  · next hroom => rw [Int.toNat_of_nonpos hroom, List.take_zero, List.filterMap_nil]
  · rfl

variable (f)

/-- The items that are not masked in the order of sorted places, the highest first, **each with its
score**. -/
noncomputable def unmasked (argsort : List (WithBot ℝ) → List ℕ) (v : Vec ℝ f.factor)
    (history : List Key) : List (Key × ℝ) :=
  (((argsort (f.scores v history)).reverse.filterMap fun p => f.model.beta.entries[p]?).filter
    fun e => decide (e.1 ∉ history)).map fun e => (e.1, Vec.dot e.2 v)

variable {f}

/-- Those that are not masked are **the items outside the history**, the highest scores first. -/
theorem ranks_unmasked {argsort : List (WithBot ℝ) → List ℕ} (h : Argsort.Legal argsort)
    (v : Vec ℝ f.factor) (history : List Key) :
    (f.unmasked argsort v history).Perm (f.scored v history) ∧
      (f.unmasked argsort v history).Pairwise fun a b => b.2 ≤ a.2 := by
  obtain ⟨hperm, hsorted⟩ := exists_sorted_entries (f := f) h v history
  refine ⟨(hperm.filter _).map _, ?_⟩
  rw [unmasked, List.pairwise_map]
  refine (hsorted.sublist List.filter_sublist).imp_of_mem fun ha hb hle => ?_
  have hfresh : ∀ {e} {es : List (Key × Vec ℝ f.factor)},
      e ∈ es.filter (fun e => decide (e.1 ∉ history)) →
        f.maskedScore v history e = (Vec.dot e.2 v : ℝ) :=
    fun he => if_neg (of_decide_eq_true (List.mem_filter.1 he).2)
  rw [hfresh ha, hfresh hb] at hle
  exact WithBot.coe_le_coe.1 hle

/-- Whatever way places are sorted, the masked items **come last and are cut off**. -/
theorem recommendMasked_eq {argsort : List (WithBot ℝ) → List ℕ} (h : Argsort.Legal argsort)
    {user : Key} {history : List Key} {v : Vec ℝ f.factor}
    (hv : f.profile user history = some v) (count : ℤ) :
    f.recommendMasked argsort user history count
      = ((f.unmasked argsort v history).take count.toNat).map Prod.fst := by
  obtain ⟨-, hsorted⟩ := exists_sorted_entries (f := f) h v history
  set places := (argsort (f.scores v history)).reverse with hplaces
  set es := places.filterMap fun p => f.model.beta.entries[p]? with hes
  let fresh : Key × Vec ℝ f.factor → Bool := fun e => decide (e.1 ∉ history)
  have hroom : (f.model.beta.domain \ history.toFinset).card = (es.filter fresh).length := by
    rw [← length_scored v, ← (ranks_unmasked h v history).1.length_eq, unmasked, List.length_map]
  have hitems : ∀ p, f.items[p]? = (f.model.beta.entries[p]?).map Prod.fst := fun p =>
    List.getElem?_map
  have hvalid : ∀ p ∈ places, p < f.model.beta.entries.length := fun p hp => by
    have hrange := (h.perm (f.scores v history)).subset (List.mem_reverse.1 hp)
    rw [scores, List.length_map] at hrange
    exact List.mem_range.1 hrange
  calc f.recommendMasked argsort user history count
      = (places.take (min count (es.filter fresh).length).toNat).filterMap
          fun p => (f.model.beta.entries[p]?).map Prod.fst := by
        rw [recommendMasked_of_profile hv, hroom]
        simp only [hitems, hplaces]
    _ = (es.take (min count (es.filter fresh).length).toNat).map Prod.fst := by
        rw [← List.map_filterMap, filterMap_take_getElem? hvalid]
    _ = ((es.filter fresh).take count.toNat).map Prod.fst := by
        rw [take_min_of_append (filter_append_filter_of_masked hsorted)]
    _ = ((f.unmasked argsort v history).take count.toNat).map Prod.fst := by
        rw [unmasked, ← List.map_take, List.map_map]
        rfl

/-- A ranking **suggests the best items**. -/
theorem best_recommendBy {ranking : List (Key × ℝ) → List (Key × ℝ)} (h : Ranks ranking)
    {user : Key} {history : List Key} {v : Vec ℝ f.factor}
    (hv : f.profile user history = some v) (count : ℤ) :
    f.Best (f.affinity user history) history count (f.recommendBy ranking user history count) := by
  have hbest := best_take hv (h.perm (f.scored v history)) (h.sorted _) count
  rw [recommendBy, hv]
  exact hbest

/-- Sorted places **suggest the best items**. -/
theorem best_recommendMasked {argsort : List (WithBot ℝ) → List ℕ} (h : Argsort.Legal argsort)
    {user : Key} {history : List Key} {v : Vec ℝ f.factor}
    (hv : f.profile user history = some v) (count : ℤ) :
    f.Best (f.affinity user history) history count
      (f.recommendMasked argsort user history count) := by
  obtain ⟨hperm, hsorted⟩ := ranks_unmasked h v history
  rw [recommendMasked_eq h hv]
  exact best_take hv hperm hsorted count

end Fitted

/-- Where **a whole number** is asked for there is an answer. -/
theorem Recommender.recommend_integer [Spelling] {r : Recommender ℝ} {f : Fitted ℝ}
    (hf : r.fitted = some f) (user : Key) (history : List Key) (count : ℤ) :
    r.recommend user history (.integer count) = .ok (f.recommend user history count) := by
  rw [Recommender.recommend, hf]
  dsimp only
  split
  · next hnone =>
      rw [Fitted.recommend, hnone]
  · rfl

/-- **The best items are suggested.** Where the user or a member of the history is known, what a
fitted recommender suggests are the best items outside the history, for every ranking of the items
that are not in it, and also where all items are sorted with the history masked, whatever way of
sorting places is used. Otherwise nothing is suggested. -/
theorem recommend_is_best [Spelling] {r : Recommender ℝ} {f : Fitted ℝ} (hf : r.fitted = some f)
    {ranking : List (Key × ℝ) → List (Key × ℝ)} (hranking : Ranks ranking)
    {argsort : List (WithBot ℝ) → List ℕ} (hargsort : Argsort.Legal argsort) (user : Key)
    (history : List Key) (count : ℤ) :
    let answers := [f.recommend user history count, f.recommendBy ranking user history count,
      f.recommendMasked argsort user history count]
    r.recommend user history (.integer count) = .ok (f.recommend user history count) ∧
      ((user ∈ f.model.theta ∨ ∃ k ∈ history, k ∈ f.model.beta) → ∀ answer ∈ answers,
        f.Best (f.affinity user history) history count answer) ∧
      (¬ (user ∈ f.model.theta ∨ ∃ k ∈ history, k ∈ f.model.beta) → ∀ answer ∈ answers,
        answer = []) := by
  intro answers
  refine ⟨Recommender.recommend_integer hf user history count, fun hknown => ?_, fun hunknown => ?_⟩
  · obtain ⟨v, hv⟩ := Option.ne_none_iff_exists'.1
      (mt Fitted.profile_eq_none_iff.1 (not_not_intro hknown))
    intro answer hanswer
    simp only [answers, List.mem_cons, List.not_mem_nil, or_false] at hanswer
    rcases hanswer with rfl | rfl | rfl
    · rw [Fitted.recommend_eq_recommendBy (Fitted.audible user history)]
      exact Fitted.best_recommendBy ranks_descending hv count
    · exact Fitted.best_recommendBy hranking hv count
    · exact Fitted.best_recommendMasked hargsort hv count
  · have hnone := Fitted.profile_eq_none_iff.2 hunknown
    intro answer hanswer
    simp only [answers, List.mem_cons, List.not_mem_nil, or_false] at hanswer
    rcases hanswer with rfl | rfl | rfl
    · rw [Fitted.recommend, hnone]
    · rw [Fitted.recommendBy, hnone]
    · rw [Fitted.recommendMasked, hnone]

/-- Three items with one factor, two of which have **the same vector**. -/
noncomputable def Fitted.tied : Fitted ℝ where
  factor := 1
  model :=
    { Model.empty ⟨1, 1, 1, 1, 1, ⟨.gaussian, 1, 1, 1⟩, .auc, 1, false, false⟩ 0 ⟨7, 0⟩ with
      theta := .ofList [(.text "u", Vector.singleton 1)]
      beta := .ofList [(.text "a", Vector.singleton (2 : ℕ)), (.text "b", Vector.singleton 1),
        (.text "c", Vector.singleton 1)] }
  history := []

/-- One of two items with the same score is suggested to **a user who is not known**, whose history
has an item twice, and another one that is not known. -/
theorem recommend_is_best_tied :
    letI := Spelling.silent
    let f := Fitted.tied
    let history : List Key := [.text "a", .text "x", .text "a"]
    ∃ r : Recommender ℝ, r.fitted = some f ∧ Ranks Fitted.descending ∧
      Argsort.Legal Argsort.stable ∧ .text "w" ∉ f.model.theta ∧
      (∃ k ∈ history, k ∈ f.model.beta) ∧
      ∀ answer ∈ [f.recommend (.text "w") history 1,
        f.recommendMasked Argsort.stable (.text "w") history 1],
        f.Best (f.affinity (.text "w") history) history 1 answer ∧ answer.length = 1 := by
  let _ := Spelling.silent
  intro f history
  let r : Recommender ℝ := ⟨⟨fun _ => .absent, .auc, ⟨.gaussian, 1, 1, 1⟩⟩, some f, .empty, 0⟩
  have hdomain : f.model.beta.domain = {.text "a", .text "b", .text "c"} := rfl
  have hknown : ∃ k ∈ history, k ∈ f.model.beta :=
    ⟨.text "a", List.mem_cons_self, Table.mem_domain.1 (hdomain ▸ by decide)⟩
  obtain ⟨-, hbest, -⟩ := recommend_is_best (r := r) rfl ranks_descending Argsort.legal_stable
    (.text "w") history 1
  have hcard : (f.model.beta.domain \ history.toFinset).card = 2 := by
    rw [hdomain]
    decide
  refine ⟨r, rfl, ranks_descending, Argsort.legal_stable, by decide, hknown, ?_⟩
  intro answer hanswer
  have hanswers := hbest (.inr hknown) answer
    ((List.Sublist.cons_cons _ (List.sublist_cons_self _ _)).subset hanswer)
  refine ⟨hanswers, ?_⟩
  have hlength := hanswers.length
  rw [hcard] at hlength
  omega

end CoEmbed
