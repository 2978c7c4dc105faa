import CoEmbed.Proofs.Objective.Loss

/-!
# The Preferences from Either Side

A log of preferences may be handed over as the contexts of its users or as the contexts of its
items. Each side sets its own background against the pairs that are not observed and then corrects
it, pair by pair; in exact arithmetic both come to the same error.

* `sideLoss` — the error of the preferences, over the contexts of one side.
* `contextError`, `add_contextError` — the error of one context.
* `sampleError`, `preferenceLoss_samples` — the loss is a sum over samples of both sides.
* `preferenceLoss_users`, `preferenceLoss_items` — the loss is taken over one side or the other.
* `sideLoss_eq` — where each registered key has one context, a sum over all registered pairs.
* `preferenceLoss_either_side` — both sides have the same error.

## Length convention

Vectors of users and vectors of items that differ in length cannot be paired. The error is then
refused from either side, unless one of the sides has no vectors at all.
-/

open Matrix

namespace CoEmbed

variable {m n : ℕ}

/-! ### Contexts by key -/

/-- A key that is listed once has **one value**. -/
theorem exists_weightsOf_eq_singleton {ω : Type} {es : List (Key × ω)} {k : Key}
    (h : (es.map Prod.fst).count k = 1) : ∃ x, weightsOf es k = [x] ∧ (k, x) ∈ es := by
  obtain ⟨x, hx⟩ := List.length_eq_one_iff.1 ((length_weightsOf es k).trans h)
  exact ⟨x, hx, mem_weightsOf.1 (hx ▸ List.mem_cons_self)⟩

/-- A table with vectors has keys. -/
theorem Factors.size_ne_zero_iff {α : Type} {W : Factors α n} : W.size ≠ 0 ↔ ∃ k, k ∈ W := by
  rw [Ne, Factors.size_eq_zero_iff, ← Ne, ← Finset.nonempty_iff_ne_empty]
  exact exists_congr fun k => Table.mem_domain

/-! ### One side -/

/-- The error of the preferences over the contexts of **one side**: a context whose own key has no
vector, or that has no vectors to be compared with, adds nothing. -/
noncomputable def sideLoss (own : Factors ℝ m) (others : Factors ℝ n)
    (contexts : List (Key × List (Feature ℝ))) (c₀ c₁ : ℝ) : Except Fault ℝ :=
  contexts.foldlM (fun loss e => match own.get? e.1 with
    | none => .ok loss
    | some v =>
      if others.size = 0 then .ok loss
      else (sliceLoss v others e.2 c₀ c₁).map fun x => loss + x) 0

/-- The error over the contexts of **users** sets each user against the items. -/
theorem preferenceLoss_users (beta : Factors ℝ m) (theta : Factors ℝ n) (c₀ c₁ : ℝ)
    (users : List (Key × List (Feature ℝ))) :
    preferenceLoss (users.map fun e => Sample.user e.1 e.2) beta theta c₀ c₁
      = sideLoss theta beta users c₀ c₁ := by
  rw [preferenceLoss, sideLoss, List.foldlM_map]
  congr 1
  funext loss e
  dsimp only
  cases theta.get? e.1 <;> rfl

/-- The error over the contexts of **items** sets each item against the users; the rows of
neighbours are not looked at. -/
theorem preferenceLoss_items (beta : Factors ℝ m) (theta : Factors ℝ n) (c₀ c₁ : ℝ)
    (items : List (Key × List (Feature ℝ) × Option (Row ℝ))) :
    preferenceLoss (items.map fun e => Sample.item e.1 e.2.1 e.2.2) beta theta c₀ c₁
      = sideLoss beta theta (items.map fun e => (e.1, e.2.1)) c₀ c₁ := by
  rw [preferenceLoss, sideLoss, List.foldlM_map, List.foldlM_map]
  congr 1
  funext loss e
  dsimp only
  cases beta.get? e.1 <;> rfl

/-- The error of **one context**: each registered pair of its key counts as unobserved, but for the
values that the features observe; a key without a vector has no error. -/
noncomputable def contextError (own others : Factors ℝ n) (c₀ c₁ : ℝ) (k : Key)
    (features : List (Feature ℝ)) : ℝ :=
  if k ∈ own then ∑ j ∈ others.domain,
    scoreError c₀ c₁ (weightsOf features j) (own.vectorAt k ⬝ᵥ others.vectorAt j) else 0

/-- What **one context adds** to the error of those before it. -/
theorem add_contextError (own others : Factors ℝ n) (c₀ c₁ loss : ℝ) (k : Key)
    (features : List (Feature ℝ)) :
    (match own.get? k with
      | none => .ok loss
      | some v =>
        if others.size = 0 then .ok loss
        else (sliceLoss v others features c₀ c₁).map fun x => loss + x : Except Fault ℝ)
      = .ok (loss + contextError own others c₀ c₁ k features) := by
  cases hv : own.get? k with
  | none => rw [contextError, if_neg (Table.get?_eq_none_iff.1 hv), add_zero]
  | some v =>
      rw [contextError, if_pos (Table.mem_of_get? hv), Factors.vectorAt_of_get? hv]
      by_cases hsize : others.size = 0
      · simp only [if_pos hsize, Factors.size_eq_zero_iff.1 hsize, Finset.sum_empty, add_zero]
      · simp only [if_neg hsize, sliceLoss_eq_sum]
        rfl

/-- A sample is the context of a user or the context of an item. -/
def Sample.Known {ρ : Type} : Sample ρ → Prop
  | .user _ _ => True
  | .item _ _ _ => True
  | .foreign _ => False

/-- The error of the **preferences** in one sample. -/
noncomputable def sampleError (beta theta : Factors ℝ n) (c₀ c₁ : ℝ) : Sample ℝ → ℝ
  | .user u features => contextError theta beta c₀ c₁ u features
  | .item i features _ => contextError beta theta c₀ c₁ i features
  | .foreign _ => 0

/-- The error of the preferences is a **sum over samples**, of users and items alike. -/
theorem preferenceLoss_samples (beta theta : Factors ℝ n) (c₀ c₁ : ℝ)
    {samples : List (Sample ℝ)} (h : ∀ s ∈ samples, s.Known) :
    preferenceLoss samples beta theta c₀ c₁
      = .ok (samples.map (sampleError beta theta c₀ c₁)).sum := by
  rw [preferenceLoss, foldlM_ok_add _ (sampleError beta theta c₀ c₁), zero_add]
  intro loss s hs
  cases s with
  | user u features =>
      rw [sampleError, ← add_contextError]
      dsimp only
      cases theta.get? u <;> rfl
  | item i features row =>
      rw [sampleError, ← add_contextError]
      dsimp only
      cases beta.get? i <;> rfl
  | foreign t => exact (h _ hs).elim

/-- The error over the contexts of one side is a **sum over all registered pairs**, taken once for
each context of its key. -/
theorem sideLoss_eq (own others : Factors ℝ n) (contexts : List (Key × List (Feature ℝ)))
    (c₀ c₁ : ℝ) :
    sideLoss own others contexts c₀ c₁
      = .ok (∑ k ∈ own.domain, ((weightsOf contexts k).map fun features =>
          ∑ j ∈ others.domain, scoreError c₀ c₁ (weightsOf features j)
            (own.vectorAt k ⬝ᵥ others.vectorAt j)).sum) := by
  have hsum := sum_map_eq_sum_weightsOf own.domain contexts (contextError own others c₀ c₁)
    fun k hk _ => if_neg fun hmem => hk (Table.mem_domain.2 hmem)
  rw [sideLoss, foldlM_ok_add _ fun e => contextError own others c₀ c₁ e.1 e.2, hsum, zero_add]
  · refine congrArg Except.ok (Finset.sum_congr rfl fun k hk => ?_)
    exact congrArg List.sum (List.map_congr_left fun _ _ => if_pos (Table.mem_domain.1 hk))
  · intro s e _
    exact add_contextError own others c₀ c₁ s e.1 e.2

/-- The values that the contexts of a key **observe for another key**. -/
def observations (contexts : List (Key × List (Feature ℝ))) (k j : Key) : List ℝ :=
  (weightsOf contexts k).flatMap fun features => weightsOf features j

/-- A key with one context has the observations **of that context**. -/
theorem exists_observations_eq {contexts : List (Key × List (Feature ℝ))} {k : Key}
    (h : (contexts.map Prod.fst).count k = 1) :
    ∃ features, (k, features) ∈ contexts ∧ weightsOf contexts k = [features] ∧
      ∀ j, observations contexts k j = weightsOf features j := by
  obtain ⟨features, hsingle, hmem⟩ := exists_weightsOf_eq_singleton h
  refine ⟨features, hmem, hsingle, fun j => ?_⟩
  rw [observations, hsingle, List.flatMap_singleton]

/-- Where each registered key has one context, the error is a sum over **all registered pairs**;
only how often each value is observed matters. -/
theorem sideLoss_eq_of_one {own others : Factors ℝ n} {contexts : List (Key × List (Feature ℝ))}
    (hone : ∀ k ∈ own, (contexts.map Prod.fst).count k = 1) {values : Key → Key → List ℝ}
    (hvalues : ∀ k ∈ own, ∀ j ∈ others, (observations contexts k j).Perm (values k j))
    (c₀ c₁ : ℝ) :
    sideLoss own others contexts c₀ c₁
      = .ok (∑ k ∈ own.domain, ∑ j ∈ others.domain,
          scoreError c₀ c₁ (values k j) (own.vectorAt k ⬝ᵥ others.vectorAt j)) := by
  rw [sideLoss_eq]
  refine congrArg Except.ok (Finset.sum_congr rfl fun k hk => ?_)
  have hk := Table.mem_domain.1 hk
  obtain ⟨features, -, hsingle, hobserved⟩ := exists_observations_eq (hone k hk)
  rw [hsingle, List.map_singleton, List.sum_singleton]
  refine Finset.sum_congr rfl fun j hj => ?_
  rw [← hobserved]
  exact scoreError_perm (hvalues k hk j (Table.mem_domain.1 hj)) c₀ c₁ _

/-- A side that has **no vectors**, or none to be compared with, has no error. -/
theorem sideLoss_of_empty (own : Factors ℝ m) (others : Factors ℝ n)
    (h : own.size = 0 ∨ others.size = 0) (contexts : List (Key × List (Feature ℝ))) (c₀ c₁ : ℝ) :
    sideLoss own others contexts c₀ c₁ = .ok 0 := by
  rw [sideLoss, foldlM_ok_add _ fun _ => 0, List.map_const', List.sum_replicate, smul_zero,
    add_zero]
  intro s e _
  rw [add_zero]
  cases hv : own.get? e.1 with
  | none => rfl
  | some v =>
      have hown : own.size ≠ 0 := Factors.size_ne_zero_iff.2 ⟨e.1, Table.mem_of_get? hv⟩
      simp only [if_pos (h.resolve_left hown)]

/-- Where a side has vectors, some context is **about one of them**. -/
theorem exists_context {own : Factors ℝ m} (hown : own.size ≠ 0)
    {contexts : List (Key × List (Feature ℝ))}
    (hone : ∀ k ∈ own, (contexts.map Prod.fst).count k = 1) : ∃ e ∈ contexts, e.1 ∈ own := by
  obtain ⟨k, hk⟩ := Factors.size_ne_zero_iff.1 hown
  obtain ⟨features, hmem, -⟩ := exists_observations_eq (hone k hk)
  exact ⟨(k, features), hmem, hk⟩

/-- Vectors of **different lengths** cannot be compared, from whichever side. -/
theorem sideLoss_of_ne (hne : m ≠ n) {own : Factors ℝ m} {others : Factors ℝ n}
    (hothers : others.size ≠ 0) {contexts : List (Key × List (Feature ℝ))}
    (hcontext : ∃ e ∈ contexts, e.1 ∈ own) (c₀ c₁ : ℝ) :
    sideLoss own others contexts c₀ c₁ = .error .badValue := by
  induction contexts with
  | nil => exact absurd hcontext (by simp)
  | cons e contexts ih =>
      rw [sideLoss, List.foldlM_cons]
      cases hv : own.get? e.1 with
      | none =>
          refine ih ?_
          obtain ⟨d, hd, hown⟩ := hcontext
          rcases List.mem_cons.1 hd with rfl | hd
          · exact absurd hown (Table.get?_eq_none_iff.1 hv)
          · exact ⟨d, hd, hown⟩
      | some v =>
          have hslice : sliceLoss v others e.2 c₀ c₁ = .error .badValue := by
            obtain ⟨w, ws, hvalues⟩ : ∃ w ws, others.values = w :: ws := by
              refine List.exists_cons_of_ne_nil fun hnil => hothers ?_
              rw [Table.size, ← List.length_map Prod.snd, ← Table.values, hnil]
              rfl
            have hpair : paired w v = .error .badValue := by
              rw [paired, Vec.pairing_eq_none w v hne]
            rw [sliceLoss, hvalues, List.mapM_cons, hpair]
            rfl
          simp only [if_neg hothers, hslice]
          rfl

/-! ### Either side -/

/-- **The preferences have the same error from either side**: whether they are handed over as one
context for each registered user or as one context for each registered item, in whatever order, as
long as a value is observed for an item among the features of a user as often as it is for the user
among those of the item. Contexts of keys that are not registered may say anything, and so may
features about them. Vectors of one length always have an error. -/
theorem preferenceLoss_either_side (beta : Factors ℝ m) (theta : Factors ℝ n) (c₀ c₁ : ℝ)
    (users : List (Key × List (Feature ℝ)))
    (items : List (Key × List (Feature ℝ) × Option (Row ℝ)))
    (husers : ∀ u ∈ theta, (users.map Prod.fst).count u = 1)
    (hitems : ∀ i ∈ beta, (items.map Prod.fst).count i = 1)
    (hfeatures : ∀ e ∈ users, ∀ f ∈ items, e.1 ∈ theta → f.1 ∈ beta →
      ∀ v, e.2.count (f.1, v) = f.2.1.count (e.1, v)) :
    preferenceLoss (users.map fun e => Sample.user e.1 e.2) beta theta c₀ c₁
        = preferenceLoss (items.map fun e => Sample.item e.1 e.2.1 e.2.2) beta theta c₀ c₁ ∧
      (m = n → ∃ x, preferenceLoss (users.map fun e => Sample.user e.1 e.2) beta theta c₀ c₁
        = .ok x) := by
  rw [preferenceLoss_users, preferenceLoss_items]
  have hitems' : ∀ i ∈ beta, ((items.map fun e => (e.1, e.2.1)).map Prod.fst).count i = 1 := by
    intro i hi
    rw [List.map_map]
    exact hitems i hi
  -- the items observe for the users what the users observe for them
  have hmirror : ∀ i ∈ beta, ∀ u ∈ theta,
      (observations (items.map fun e => (e.1, e.2.1)) i u).Perm (observations users u i) := by
    intro i hi u hu
    obtain ⟨features, hmem, -, hobserved⟩ := exists_observations_eq (husers u hu)
    obtain ⟨features', hmem', -, hobserved'⟩ := exists_observations_eq (hitems' i hi)
    obtain ⟨f, hf, heq⟩ := List.mem_map.1 hmem'
    obtain ⟨rfl, rfl⟩ := Prod.mk.inj heq
    rw [hobserved, hobserved', List.perm_iff_count]
    intro v
    rw [count_weightsOf, count_weightsOf]
    exact (hfeatures _ hmem f hf hu hi v).symm
  by_cases hmn : m = n
  · subst hmn
    rw [sideLoss_eq_of_one husers fun _ _ _ _ => List.Perm.refl _,
      sideLoss_eq_of_one hitems' hmirror]
    refine ⟨congrArg Except.ok ?_, fun _ => ⟨_, rfl⟩⟩
    rw [Finset.sum_comm]
    simp only [dotProduct_comm]
  · refine ⟨?_, fun h => absurd h hmn⟩
    by_cases hempty : theta.size = 0 ∨ beta.size = 0
    · rw [sideLoss_of_empty theta beta hempty, sideLoss_of_empty beta theta hempty.symm]
    · obtain ⟨htheta, hbeta⟩ := not_or.1 hempty
      rw [sideLoss_of_ne (Ne.symm hmn) hbeta (exists_context htheta husers),
        sideLoss_of_ne hmn htheta (exists_context hbeta hitems')]

/-- Contexts in different orders, with a value observed twice for one pair, a context of a stranger,
and features about **strangers**. -/
theorem preferenceLoss_either_side_shuffled :
    let theta : Factors ℝ 2 := Table.ofList [(.text "u", #v[1, 2]), (.text "v", #v[0, 1])]
    let beta : Factors ℝ 2 := Table.ofList [(.text "a", #v[1, 1]), (.text "b", #v[3, 0])]
    let users : List (Key × List (Feature ℝ)) :=
      [(.text "ghost", [(.text "a", 5)]),
        (.text "v", [(.text "a", 1), (.text "nobody", 3), (.text "a", 2)]),
        (.text "u", [(.text "b", 1)])]
    let items : List (Key × List (Feature ℝ) × Option (Row ℝ)) :=
      [(.text "b", [(.text "u", 1)], some [(.text "a", 4)]),
        (.text "a", [(.text "v", 2), (.text "ghost", 7), (.text "v", 1)], none)]
    (∀ u ∈ theta, (users.map Prod.fst).count u = 1) ∧
      (∀ i ∈ beta, (items.map Prod.fst).count i = 1) ∧
      (∀ e ∈ users, ∀ f ∈ items, e.1 ∈ theta → f.1 ∈ beta →
        ∀ v, e.2.count (f.1, v) = f.2.1.count (e.1, v)) ∧
      preferenceLoss (users.map fun e => Sample.user e.1 e.2) beta theta (1 / 2 : ℝ) (2 : ℝ)
        = preferenceLoss (items.map fun e => Sample.item e.1 e.2.1 e.2.2) beta theta (1 / 2 : ℝ)
          (2 : ℝ) ∧
      ∃ x, preferenceLoss (users.map fun e => Sample.user e.1 e.2) beta theta (1 / 2 : ℝ) (2 : ℝ)
        = .ok x := by
  intro theta beta users items
  have husers : ∀ u ∈ theta, (users.map Prod.fst).count u = 1 := by
    change ∀ u ∈ [Key.text "u", .text "v"],
      [Key.text "ghost", .text "v", .text "u"].count u = 1
    decide
  have hitems : ∀ i ∈ beta, (items.map Prod.fst).count i = 1 := by
    change ∀ i ∈ [Key.text "a", .text "b"], [Key.text "b", .text "a"].count i = 1
    decide
  have hfeatures : ∀ e ∈ users, ∀ f ∈ items, e.1 ∈ theta → f.1 ∈ beta →
      ∀ v, e.2.count (f.1, v) = f.2.1.count (e.1, v) := by
    have hghost : Key.text "ghost" ∉ theta := by decide
    simp only [users, items, List.forall_mem_cons, List.not_mem_nil, false_imp_iff, implies_true]
    simp [hghost, List.count_cons, add_comm]
  obtain ⟨hsides, hvalue⟩ :=
    preferenceLoss_either_side beta theta (1 / 2) 2 users items husers hitems hfeatures
  exact ⟨husers, hitems, hfeatures, hsides, hvalue rfl⟩

end CoEmbed
