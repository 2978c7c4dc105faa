import CoEmbed.Proofs.Best
import CoEmbed.Proofs.Outcome

/-!
# Pages and Histories

Asking for fewer suggestions gives the first of those that asking for more gives, and of a history
it matters only which trained items are in it: each of them just once for a user who is known, and
as often as it is listed for a user who is not.

* `Fitted.recommend_eq_recommendMasked` — what is suggested is what comes of sorting the places of
  all items, those of equal scores from the front.
* `Fitted.recommendMasked_prefix`, `Recommender.recommend_prefix` — pages of one ranking.
* `Fitted.SameTo`, `Fitted.recommendMasked_congr` — histories that tell the same of a user.
* `pages_and_histories` — pages and histories, for every way of sorting places.

## Page convention

A number that is asked for may be below zero, and then nothing is suggested; it may be a fraction,
as long as there are not that many suggestions.
-/

namespace CoEmbed

namespace Fitted

variable {f : Fitted ℝ}

/-! ### Sorted places -/

/-- Places that are sorted from the front lead to **sorted entries**. -/
theorem filterMap_stable (v : Vec ℝ f.factor) (history : List Key) :
    (Argsort.stable (f.scores v history)).filterMap (fun p => f.model.beta.entries[p]?)
      = f.model.beta.entries.mergeSort
          fun a b => decide (f.maskedScore v history a ≤ f.maskedScore v history b) := by
  set es := f.model.beta.entries with hes
  let score : Option (Key × Vec ℝ f.factor) → WithBot ℝ := fun e =>
    (e.map (f.maskedScore v history)).getD ⊥
  have hlength : (f.scores v history).length = es.length := List.length_map _
  have hscore : ∀ p, (f.scores v history).getD p ⊥ = score es[p]? := fun p => by
    rw [scores, List.getD_eq_getElem?_getD, List.getElem?_map]
  have hplaces : (Argsort.stable (f.scores v history)).map (fun p => es[p]?)
      = (es.mergeSort fun a b =>
          decide (f.maskedScore v history a ≤ f.maskedScore v history b)).map some := by
    have hsome : ∀ a ∈ es, ∀ b ∈ es,
        decide (f.maskedScore v history a ≤ f.maskedScore v history b)
          = decide (score (some a) ≤ score (some b)) := fun a _ b _ => rfl
    rw [Argsort.stable, List.map_mergeSort (s := fun a b => decide (score a ≤ score b))
      fun p _ q _ => by rw [hscore, hscore], hlength, map_getElem?_range,
      List.map_mergeSort (s := fun a b => decide (score a ≤ score b)) hsome]
  calc (Argsort.stable (f.scores v history)).filterMap (fun p => es[p]?)
      = ((Argsort.stable (f.scores v history)).map fun p => es[p]?).filterMap id :=
        by rw [List.filterMap_map, Function.id_comp]
    _ = _ := by rw [hplaces, List.filterMap_map, Function.id_comp, List.filterMap_some]

/-- If places are sorted from the front, those that are not masked come **in descending order**. -/
theorem unmasked_stable (v : Vec ℝ f.factor) (history : List Key) :
    f.unmasked Argsort.stable v history = descending (f.scored v history) := by
  have htrans : ∀ a b c : Key × Vec ℝ f.factor,
      decide (f.maskedScore v history a ≤ f.maskedScore v history b) = true →
      decide (f.maskedScore v history b ≤ f.maskedScore v history c) = true →
      decide (f.maskedScore v history a ≤ f.maskedScore v history c) = true := fun a b c hab hbc =>
    decide_eq_true ((of_decide_eq_true hab).trans (of_decide_eq_true hbc))
  have htotal : ∀ a b : Key × Vec ℝ f.factor,
      (decide (f.maskedScore v history a ≤ f.maskedScore v history b)
        || decide (f.maskedScore v history b ≤ f.maskedScore v history a)) = true := fun a b => by
    rw [Bool.or_eq_true, decide_eq_true_iff, decide_eq_true_iff]
    exact le_total _ _
  have hscore : ∀ e ∈ f.model.beta.entries.filter (fun e => decide (e.1 ∉ history)),
      f.maskedScore v history e = (Vec.dot e.2 v : ℝ) := fun e he =>
    if_neg (of_decide_eq_true (List.mem_filter.1 he).2)
  rw [unmasked, List.filterMap_reverse, filterMap_stable, List.filter_reverse,
    filter_mergeSort htrans htotal, List.map_reverse, descending, scored]
  refine congrArg List.reverse (List.map_mergeSort fun a ha b hb => ?_)
  rw [hscore a ha, hscore b hb, precedes_real, Bool.eq_iff_iff, Bool.not_eq_true',
    decide_eq_false_iff_not, not_lt, decide_eq_true_iff, WithBot.coe_le_coe]

/-- **What is suggested** is what comes of sorting the places of all items with the history masked,
those of equal scores from the front. -/
theorem recommend_eq_recommendMasked (user : Key) (history : List Key) (count : ℤ) :
    f.recommend user history count = f.recommendMasked Argsort.stable user history count := by
  cases hv : f.profile user history with
  | none => rw [recommend, recommendMasked, hv]
  | some v =>
      let _ := Spelling.silent
      rw [recommend_eq_recommendBy (audible user history), recommendBy, hv,
        recommendMasked_eq Argsort.legal_stable hv, unmasked_stable]

/-! ### Pages -/

/-- Fewer suggestions are **the first of more**, whatever comes of sorting places. -/
theorem recommendMasked_prefix (argsort : List (WithBot ℝ) → List ℕ) (user : Key)
    (history : List Key) {m n : ℤ} (h : m ≤ n) :
    f.recommendMasked argsort user history m <+: f.recommendMasked argsort user history n := by
  cases hv : f.profile user history with
  | none =>
      rw [recommendMasked, hv]
      exact List.nil_prefix
  | some v =>
      rw [recommendMasked_of_profile hv, recommendMasked_of_profile hv]
      have hroom : (min m (f.model.beta.domain \ history.toFinset).card).toNat
          ≤ (min n (f.model.beta.domain \ history.toFinset).card).toNat := by omega
      exact (List.take_prefix_take_left hroom).filterMap _

/-- What is suggested are the first items of **one ranking**, as many as are asked for or as are not
masked. -/
theorem recommend_of_profile {user : Key} {history : List Key} {v : Vec ℝ f.factor}
    (hv : f.profile user history = some v) (count : ℤ) :
    f.recommend user history count
      = ((ranked (f.masked v history)).map Prod.fst).take
          (min count (f.available history)).toNat := by
  rw [recommend, hv, ← List.map_take]

/-! ### Histories -/

/-- Two histories that **tell the same** of a user: they have the same trained items, and if the
user is not known, each of them equally often. -/
def SameTo (f : Fitted ℝ) (user : Key) (history history' : List Key) : Prop :=
  if user ∈ f.model.theta then ∀ i ∈ f.model.beta, i ∈ history ↔ i ∈ history'
  else ∀ i ∈ f.model.beta, history.count i = history'.count i

variable {user : Key} {history history' : List Key}

/-- They have the same trained items **in any case**. -/
theorem SameTo.mem_iff (h : f.SameTo user history history') {i : Key} (hi : i ∈ f.model.beta) :
    i ∈ history ↔ i ∈ history' := by
  by_cases hu : user ∈ f.model.theta
  · rw [SameTo, if_pos hu] at h
    exact h i hi
  · rw [SameTo, if_neg hu] at h
    rw [← List.count_pos_iff, ← List.count_pos_iff, h i hi]

/-- To a user who is not known they are the same **up to their order**. -/
theorem SameTo.familiar_perm (h : f.SameTo user history history') (hu : user ∉ f.model.theta) :
    (f.familiar history).Perm (f.familiar history') := by
  rw [SameTo, if_neg hu] at h
  refine List.perm_iff_count.2 fun i => ?_
  by_cases hi : i ∈ f.model.beta
  · have hall : ∀ history, (f.familiar history).count i = history.count i := fun history =>
      List.count_filter (decide_eq_true hi)
    rw [hall, hall, h i hi]
  · have hnone : ∀ history, (f.familiar history).count i = 0 := fun history =>
      List.count_eq_zero.2 fun hmem => hi (of_decide_eq_true (List.mem_filter.1 hmem).2)
    rw [hnone, hnone]

/-- The mean of some vectors does not depend on **their order**. -/
theorem meanVector_perm {n : ℕ} {vs ws : List (Vec ℝ n)} (h : vs.Perm ws) :
    meanVector vs = meanVector ws := by
  have hsum : vs.foldl Vec.add Vec.zero = ws.foldl Vec.add Vec.zero := by
    refine Vec.coords_injective ?_
    rw [coords_foldl _ Vec.coords fun u v => Vec.coords_add u v,
      coords_foldl _ Vec.coords fun u v => Vec.coords_add u v, (h.map Vec.coords).sum_eq]
  rw [meanVector, meanVector, hsum, h.length_eq]

/-- The vectors of a history are those of **its known members**. -/
theorem known_eq (history : List Key) :
    f.known history = (f.familiar history).filterMap f.model.beta.get? := by
  rw [known, familiar, List.filterMap_filter]
  refine List.filterMap_congr fun k _ => ?_
  by_cases hk : k ∈ f.model.beta
  · rw [if_pos (decide_eq_true hk)]
  · rw [if_neg (by simpa using hk), Table.get?_eq_none_iff.2 hk]

/-- Histories that tell the same lead to **the same profile**. -/
theorem profile_congr (h : f.SameTo user history history') :
    f.profile user history = f.profile user history' := by
  rw [profile, profile]
  cases hu : f.model.theta.get? user with
  | some u => rfl
  | none =>
      have hknown : (f.known history).Perm (f.known history') := by
        rw [known_eq, known_eq]
        exact (h.familiar_perm (Table.get?_eq_none_iff.1 hu)).filterMap _
      cases hvs : f.known history with
      | nil =>
          rw [hvs] at hknown
          rw [hknown.nil_eq]
      | cons v vs =>
          cases hws : f.known history' with
          | nil =>
              rw [hvs, hws] at hknown
              exact absurd hknown.eq_nil (List.cons_ne_nil v vs)
          | cons w ws =>
              rw [hvs, hws] at hknown
              exact congrArg some (meanVector_perm hknown)

/-- They **mask the same items**. -/
theorem scores_congr (h : f.SameTo user history history') (v : Vec ℝ f.factor) :
    f.scores v history = f.scores v history' := by
  refine List.map_congr_left fun e he => ?_
  have hitem : e.1 ∈ f.model.beta := List.mem_map_of_mem he
  exact if_congr (h.mem_iff hitem) rfl rfl

/-- They have **equally many** known items, a repeated one counted once. -/
theorem card_familiar_congr (h : f.SameTo user history history') :
    (f.familiar history).toFinset.card = (f.familiar history').toFinset.card := by
  refine congrArg Finset.card (Finset.ext fun i => ?_)
  rw [List.mem_toFinset, List.mem_toFinset, familiar, familiar, List.mem_filter, List.mem_filter,
    decide_eq_true_iff]
  exact and_congr_left fun hi => h.mem_iff hi

/-- They leave **equally many items** that are not masked. -/
theorem available_congr (h : f.SameTo user history history') :
    f.available history = f.available history' := by
  rw [available_eq, available_eq]
  refine congrArg Finset.card (Finset.ext fun i => ?_)
  rw [Finset.mem_sdiff, Finset.mem_sdiff, List.mem_toFinset, List.mem_toFinset]
  exact and_congr_right fun hi => not_congr (h.mem_iff (Table.mem_domain.1 hi))

/-- Histories that tell the same of a user lead to **the same suggestions**, whatever comes of
sorting places. -/
theorem recommendMasked_congr (h : f.SameTo user history history')
    (argsort : List (WithBot ℝ) → List ℕ) (count : ℤ) :
    f.recommendMasked argsort user history count
      = f.recommendMasked argsort user history' count := by
  rw [recommendMasked, recommendMasked, profile_congr h, card_familiar_congr h]
  cases f.profile user history' with
  | none => rfl
  | some v =>
      dsimp only
      rw [scores_congr h]

end Fitted

/-! ### Numbers as they are asked for -/

namespace Recommender

variable [Spelling] {r : Recommender ℝ} {f : Fitted ℝ} {user : Key} {history : List Key}

/-- So many are asked for as **a number says**, or as there are, where it says more. -/
theorem clamp_asked {available : ℕ} {count : Setting ℝ} {x : ℝ} {k : ℤ}
    (hx : count.number = .ok x) (hk : asked available count = .ok k) :
    ((min k available).toNat : ℝ) = max 0 (min x available) := by
  have hwhole : ∀ j : ℤ, ((min j available).toNat : ℝ) = max 0 (min (j : ℝ) available) := by
    intro j
    have hmax : (((min j available).toNat : ℤ) : ℝ) = ((max (min j available) 0 : ℤ) : ℝ) := by
      rw [Int.toNat_eq_max]
    rw [max_comm]
    exact_mod_cast hmax
  cases count with
  | absent => cases hk
  | text s => cases hk
  | flag b =>
      obtain rfl := Except.ok.inj hk
      obtain rfl := Except.ok.inj hx
      rw [hwhole]
      cases b <;> simp
  | integer n =>
      obtain rfl := Except.ok.inj hk
      obtain rfl := Except.ok.inj hx
      rw [hwhole, Scalar.ofInt_real]
  | real y =>
      obtain rfl := Except.ok.inj hx
      rw [asked] at hk
      split at hk
      · next hmore =>
          obtain rfl := Except.ok.inj hk
          have hle : (available : ℝ) ≤ y := (Scalar.lt_real.1 hmore).le
          rw [hwhole, Int.cast_natCast, min_self, min_eq_right hle]
      · split at hk
        · next hnone =>
            obtain rfl := Except.ok.inj hk
            have hle : y ≤ 0 := Scalar.le_real.1 hnone
            rw [hwhole, Int.cast_zero, min_eq_left (Nat.cast_nonneg available), max_self,
              max_eq_left ((min_le_left y _).trans hle)]
        · cases hk

/-- An answer is what is suggested where **some whole number** is asked for. -/
theorem recommend_eq_ok {count : Setting ℝ} {answer : List Key} (hf : r.fitted = some f)
    (h : r.recommend user history count = .ok answer) :
    (f.profile user history = none ∧ answer = []) ∨ ∃ v k, f.profile user history = some v ∧
      asked (f.available history) count = .ok k ∧ answer = f.recommend user history k := by
  rw [recommend, hf] at h
  dsimp only at h
  cases hv : f.profile user history with
  | none =>
      rw [hv] at h
      exact .inl ⟨rfl, (Except.ok.inj h).symm⟩
  | some v =>
      rw [hv] at h
      obtain ⟨k, hk, h⟩ := bind_eq_ok_iff.1 h
      exact .inr ⟨v, k, rfl, hk, (Except.ok.inj h).symm⟩

/-- Of two answers the one to **the smaller number** is the first of the other. -/
theorem recommend_prefix (hf : r.fitted = some f) {few many : Setting ℝ} {x y : ℝ}
    (hx : few.number = .ok x) (hy : many.number = .ok y) (hle : x ≤ y) {answer answer' : List Key}
    (h : r.recommend user history few = .ok answer)
    (h' : r.recommend user history many = .ok answer') : answer <+: answer' := by
  rcases recommend_eq_ok hf h with ⟨-, rfl⟩ | ⟨v, k, hv, hk, rfl⟩
  · exact List.nil_prefix
  rcases recommend_eq_ok hf h' with ⟨hnone, -⟩ | ⟨v', k', hv', hk', rfl⟩
  · rw [hv] at hnone
    cases hnone
  obtain rfl := Option.some.inj (hv.symm.trans hv')
  have hclamped : (min k (f.available history)).toNat ≤ (min k' (f.available history)).toNat := by
    have hreal := max_le_max_left 0 (min_le_min_right (f.available history : ℝ) hle)
    rw [← clamp_asked hx hk, ← clamp_asked hy hk'] at hreal
    exact_mod_cast hreal
  rw [Fitted.recommend_of_profile hv, Fitted.recommend_of_profile hv]
  exact List.take_prefix_take_left hclamped

/-- Histories that tell the same of a user get **the same answer**, whatever is asked for. -/
theorem recommend_congr (hf : r.fitted = some f) {history' : List Key}
    (h : f.SameTo user history history') (count : Setting ℝ) :
    r.recommend user history count = r.recommend user history' count := by
  have hsuggested : ∀ k, f.recommend user history k = f.recommend user history' k := fun k => by
    rw [Fitted.recommend_eq_recommendMasked, Fitted.recommend_eq_recommendMasked,
      Fitted.recommendMasked_congr h]
  rw [recommend, recommend, hf]
  dsimp only
  rw [Fitted.profile_congr h]
  cases f.profile user history' with
  | none => rfl
  | some v =>
      dsimp only
      rw [Fitted.available_congr h]
      exact congrArg _ (funext fun k => congrArg pure (hsuggested k))

end Recommender

/-- **Pages and histories agree.** What a recommender answers is what comes of sorting the places of
all items with the history masked, those of equal scores from the front. Whatever way of sorting
places is used instead, fewer suggestions are the first of more; and two histories lead to the same
suggestions if they have the same trained items, each of them equally often if the user is not
known. -/
theorem pages_and_histories [Spelling] {r : Recommender ℝ} {f : Fitted ℝ} (hf : r.fitted = some f)
    (argsort : List (WithBot ℝ) → List ℕ) (user : Key) (history : List Key) :
    (∀ count : ℤ, r.recommend user history (.integer count)
      = .ok (f.recommendMasked Argsort.stable user history count)) ∧
    (∀ m n : ℤ, m ≤ n → f.recommendMasked argsort user history m
      <+: f.recommendMasked argsort user history n) ∧
    (∀ (few many : Setting ℝ) (x y : ℝ) (answer answer' : List Key), few.number = .ok x →
      many.number = .ok y → x ≤ y → r.recommend user history few = .ok answer →
      r.recommend user history many = .ok answer' → answer <+: answer') ∧
    ∀ history', f.SameTo user history history' →
      (∀ count : ℤ, f.recommendMasked argsort user history count
        = f.recommendMasked argsort user history' count) ∧
      ∀ count : Setting ℝ, r.recommend user history count = r.recommend user history' count := by
  refine ⟨fun count => ?_, fun m n hle => ?_, fun few many x y answer answer' hx hy hle h h' => ?_,
    fun history' h => ⟨?_, ?_⟩⟩
  · rw [Recommender.recommend_integer hf, Fitted.recommend_eq_recommendMasked]
  · exact Fitted.recommendMasked_prefix argsort user history hle
  · exact Recommender.recommend_prefix hf hx hy hle h h'
  · exact Fitted.recommendMasked_congr h argsort
  · exact Recommender.recommend_congr hf h

/-- The first of two suggestions for a user who is not known, whose histories list an item twice and
differ in **their order and in an item that is not trained**. -/
theorem pages_and_histories_tied :
    letI := Spelling.silent
    let f := Fitted.tied
    let history : List Key := [.text "a", .text "x", .text "a"]
    let history' : List Key := [.text "a", .text "a", .text "y"]
    ∃ r : Recommender ℝ, r.fitted = some f ∧ f.SameTo (.text "w") history history' ∧
      ∃ answer answer', r.recommend (.text "w") history (.integer 1) = .ok answer ∧
        r.recommend (.text "w") history' (.integer 2) = .ok answer' ∧ answer.length = 1 ∧
        answer'.length = 2 ∧ answer <+: answer' := by
  let _ := Spelling.silent
  intro f history history'
  let r : Recommender ℝ := ⟨⟨fun _ => .absent, .auc, ⟨.gaussian, 1, 1, 1⟩⟩, some f, .empty, 0⟩
  have hdomain : f.model.beta.domain = {.text "a", .text "b", .text "c"} := rfl
  have hsame : f.SameTo (.text "w") history history' := by
    rw [Fitted.SameTo, if_neg (by decide)]
    intro i hi
    rw [← Table.mem_domain, hdomain] at hi
    revert i
    decide
  obtain ⟨hanswer, hpages, -, hhistories⟩ :=
    pages_and_histories (r := r) rfl Argsort.stable (.text "w") history
  have ha : Key.text "a" ∈ f.model.beta := Table.mem_domain.1 (hdomain ▸ by decide)
  obtain ⟨v, hv⟩ := Option.ne_none_iff_exists'.1 (mt (Fitted.profile_eq_none_iff (f := f)).1
    (not_not_intro (.inr ⟨.text "a", List.mem_cons_self, ha⟩)))
  have hcard : (f.model.beta.domain \ history.toFinset).card = 2 := by
    rw [hdomain]
    decide
  have hlength : ∀ count : ℤ,
      ((f.recommendMasked Argsort.stable (.text "w") history count).length : ℤ)
        = max 0 (min count 2) := fun count => by
    rw [(Fitted.best_recommendMasked Argsort.legal_stable hv count).length, hcard]
    rfl
  have hanswer' := ((hhistories history' hsame).2 (.integer 2)).symm.trans (hanswer 2)
  exact ⟨r, rfl, hsame, _, _, hanswer 1, hanswer', Int.ofNat.inj (hlength 1),
    Int.ofNat.inj (hlength 2), hpages 1 2 one_le_two⟩

end CoEmbed
