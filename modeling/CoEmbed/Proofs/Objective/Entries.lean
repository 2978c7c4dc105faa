import CoEmbed.Proofs.Exact.Setting
import CoEmbed.Proofs.Exact.Solvable
import CoEmbed.Proofs.Minimum.Rows

/-!
# The Objective, Entry by Entry

The losses never visit the pairs that are not observed: a whole table is charged as unobserved at
once, and what is observed is exchanged afterwards. Here they are taken apart into samples, and the
samples into entries, and each entry has the error that the objective is defined by.

* `Model.sampleLoss`, `Model.loss_samples` — the loss of a model is a sum over its samples.
* `entryError`, `scoreError_weightsOf` — the error of one entry.
* `Model.entrywiseLoss` — the objective, as a sum over entries.
* `Model.loss_eq_entrywise` — the two agree.

## Stranger convention

A user or an item without a vector has no entries, whatever its sample says, and a neighbour
without one has no weights.
-/

open Matrix

namespace CoEmbed

variable {n : ℕ}

/-! ### Losses, sample by sample -/

/-- The samples of tables are all known. -/
theorem known_samples {ρ : Type} [One ρ] (userItems itemUsers : Table Key (List Key))
    (rows : Table Key (Row ρ)) :
    ∀ s ∈ userSamples userItems ++ itemSamples itemUsers rows, s.Known := by
  intro s hs
  rcases List.mem_append.1 hs with hs | hs
  · obtain ⟨e, -, rfl⟩ := List.mem_map.1 hs
    exact trivial
  · obtain ⟨e, -, rfl⟩ := List.mem_map.1 hs
    exact trivial

namespace Model

variable (m : Model ℝ n)

/-- Samples that are known are **told apart**, and none of them is lost. -/
theorem exists_separate {ρ : Type} {samples : List (Sample ρ)} (h : ∀ s ∈ samples, s.Known) :
    ∃ users items, separate samples = .ok (users, items) ∧ samples.Perm (users ++ items) ∧
      (∀ s ∈ users, s.isUser = .ok true) ∧ ∀ s ∈ items, s.isUser = .ok false := by
  induction samples with
  | nil => exact ⟨[], [], rfl, .nil, nofun, nofun⟩
  | cons s samples ih =>
      obtain ⟨users, items, hsep, hperm, husers, hitems⟩ := ih (List.forall_mem_cons.1 h).2
      cases s with
      | user u features =>
          refine ⟨.user u features :: users, items, ?_, hperm.cons _, ?_, hitems⟩
          · rw [separate, hsep]
            rfl
          · exact List.forall_mem_cons.2 ⟨rfl, husers⟩
      | item i features row =>
          refine ⟨users, .item i features row :: items, ?_,
            (hperm.cons _).trans List.perm_middle.symm, husers, ?_⟩
          · rw [separate, hsep]
            rfl
          · exact List.forall_mem_cons.2 ⟨rfl, hitems⟩
      | foreign t => exact (h _ List.mem_cons_self).elim

/-- What **one sample** adds to the loss: the preferences of a user, or the row of an item. -/
noncomputable def sampleLoss : Sample ℝ → ℝ
  | .user u features =>
      contextError m.theta m.beta m.hyper.unobserved m.hyper.observed u features
  | .item i _ row => if i ∈ m.beta then
      neighborError m.gamma m.seenBetaBias m.seenGammaBias m.globalBias i (row.getD [])
        (m.beta.vectorAt i) else 0
  | .foreign _ => 0

/-- The ridges, which do not look at the samples. -/
noncomputable def ridgeError : ℝ :=
  m.hyper.ridgeTheta * ∑ u ∈ m.theta.domain, ∑ f, m.theta.vectorAt u f ^ 2
    + m.hyper.ridgeBeta * ∑ i ∈ m.beta.domain, ∑ f, m.beta.vectorAt i f ^ 2
    + m.hyper.ridgeGamma * ∑ i ∈ m.gamma.domain, ∑ f, m.gamma.vectorAt i f ^ 2

/-- The ridges of **every model**, whatever tables it is trained on. -/
theorem ridgeLoss_eq_ridgeError : m.ridgeLoss = .ok m.ridgeError := by
  have hsq (W : Factors ℝ n) (k : Key) : W.vectorAt k ⬝ᵥ W.vectorAt k = ∑ f, W.vectorAt k f ^ 2 :=
    Finset.sum_congr rfl fun f _ => (sq _).symm
  rw [ridgeLoss, CoEmbed.ridgeLoss_eq, CoEmbed.ridgeLoss_eq, CoEmbed.ridgeLoss_eq, ridgeError]
  simp only [hsq]
  rfl

/-- **The loss is a sum over samples**, in whatever order they come. -/
theorem loss_samples {samples : List (Sample ℝ)} (h : ∀ s ∈ samples, s.Known) :
    m.loss samples = .ok ((samples.map m.sampleLoss).sum + m.ridgeError) := by
  -- users have preferences and no row; the preferences of items are left to the users' contexts
  obtain ⟨users, items, hsep, hperm, husers, hitems⟩ := exists_separate h
  have hknown (s : Sample ℝ) (hs : s ∈ users ++ items) : s.Known := h s (hperm.mem_iff.2 hs)
  have hpreferences : m.preferenceLoss users = .ok (users.map m.sampleLoss).sum := by
    refine (preferenceLoss_samples m.beta m.theta _ _ fun s hs =>
      hknown s (List.mem_append_left items hs)).trans ?_
    refine congrArg (fun xs : List ℝ => Except.ok xs.sum) (List.map_congr_left fun s hs => ?_)
    cases s with
    | user u features => rfl
    | item i features row => cases husers _ hs
    | foreign t => cases husers _ hs
  have hrows : m.neighborLoss items = .ok (items.map m.sampleLoss).sum := by
    refine (neighborLoss_samples m.beta m.gamma _ _ _ fun s hs =>
      hknown s (List.mem_append_right users hs)).trans ?_
    refine congrArg (fun xs : List ℝ => Except.ok xs.sum) (List.map_congr_left fun s hs => ?_)
    cases s with
    | user u features => cases hitems _ hs
    | item i features row => rfl
    | foreign t => cases hitems _ hs
  have hsum : (samples.map m.sampleLoss).sum
      = (users.map m.sampleLoss).sum + (items.map m.sampleLoss).sum := by
    rw [(hperm.map m.sampleLoss).sum_eq, List.map_append, List.sum_append]
  rw [loss, hsep]
  refine bind_eq_ok_iff.2 ⟨_, rfl, bind_eq_ok_iff.2 ⟨_, hpreferences, ?_⟩⟩
  refine bind_eq_ok_iff.2 ⟨_, hrows, bind_eq_ok_iff.2 ⟨_, m.ridgeLoss_eq_ridgeError, ?_⟩⟩
  rw [hsum]
  rfl

end Model

/-! ### Errors, entry by entry -/

/-- The error of one **entry**: the squared distance of its score from what is observed, weighted by
one confidence, or the squared distance from zero, weighted by the other. -/
noncomputable def entryError (c₀ c₁ : ℝ) (value : Option ℝ) (x : ℝ) : ℝ :=
  (if value.isSome then c₁ else c₀) * (value.getD 0 - x) ^ 2

/-- A list that repeats no key gives each key **at most one value**. -/
theorem weightsOf_eq_toList {ω : Type} {es : List (Key × ω)} (h : (es.map Prod.fst).Nodup)
    (k : Key) : weightsOf es k = (Table.valueIn k es).toList :=
  weightsOf_entries ⟨es, h⟩ k

/-- Exchanging the error of an unobserved pair for that of what is observed leaves the **error of
the entry**. -/
theorem scoreError_weightsOf {features : List (Feature ℝ)} (h : (features.map Prod.fst).Nodup)
    (c₀ c₁ : ℝ) (k : Key) (x : ℝ) :
    scoreError c₀ c₁ (weightsOf features k) x
      = entryError c₀ c₁ (Table.valueIn k features) x := by
  rw [weightsOf_eq_toList h, scoreError, entryError]
  cases Table.valueIn k features with
  | none =>
      simp only [Option.toList_none, List.map_nil, List.sum_nil, Option.isSome_none,
        Bool.false_eq_true, if_false, Option.getD_none]
      ring
  | some v =>
      simp only [Option.toList_some, List.map_cons, List.map_nil, List.sum_cons, List.sum_nil,
        Option.isSome_some, if_true, Option.getD_some]
      ring

/-- The features of a sample **repeat no key**. -/
def Sample.OnceEach {ρ : Type} : Sample ρ → Prop
  | .user _ features => (features.map Prod.fst).Nodup
  | .item _ features _ => (features.map Prod.fst).Nodup
  | .foreign _ => False

theorem Sample.OnceEach.known {ρ : Type} {s : Sample ρ} (h : s.OnceEach) : s.Known := by
  cases s with
  | user u features => exact trivial
  | item i features row => exact trivial
  | foreign t => exact h

/-- The error of one sample as a **sum over entries**: a user has one for every item with a vector,
and an item has one for every user with a vector. -/
noncomputable def entriesError (beta theta : Factors ℝ n) (c₀ c₁ : ℝ) : Sample ℝ → ℝ
  | .user u features => if u ∈ theta then ∑ i ∈ beta.domain,
      entryError c₀ c₁ (Table.valueIn i features) (theta.vectorAt u ⬝ᵥ beta.vectorAt i) else 0
  | .item i features _ => if i ∈ beta then ∑ u ∈ theta.domain,
      entryError c₀ c₁ (Table.valueIn u features) (theta.vectorAt u ⬝ᵥ beta.vectorAt i) else 0
  | .foreign _ => 0

/-- A sample whose features repeat no key has the errors of **its entries**. -/
theorem sampleError_eq_entriesError (beta theta : Factors ℝ n) (c₀ c₁ : ℝ) {s : Sample ℝ}
    (h : s.OnceEach) : sampleError beta theta c₀ c₁ s = entriesError beta theta c₀ c₁ s := by
  cases s with
  | user u features =>
      refine if_congr Iff.rfl (Finset.sum_congr rfl fun i _ => ?_) rfl
      exact scoreError_weightsOf h c₀ c₁ i _
  | item i features row =>
      refine if_congr Iff.rfl (Finset.sum_congr rfl fun u _ => ?_) rfl
      rw [dotProduct_comm]
      exact scoreError_weightsOf h c₀ c₁ u _
  | foreign t => exact h.elim

/-! ### The objective, entry by entry -/

/-- The value one, where a key is **listed**. -/
theorem valueIn_asFeatures (ks : List Key) (k : Key) :
    Table.valueIn k (asFeatures ks (1 : ℝ)) = if k ∈ ks then some 1 else none := by
  induction ks with
  | nil => rfl
  | cons l ks ih =>
      rw [asFeatures, List.map_cons, Table.valueIn, ← asFeatures, ih]
      by_cases h : l = k
      · simp [h]
      · simp [h, Ne.symm h]

/-- Listed keys, each observed with one value, are repeated **as they are listed**. -/
theorem nodup_asFeatures {ρ : Type} {ks : List Key} (h : ks.Nodup) (x : ρ) :
    ((asFeatures ks x).map Prod.fst).Nodup := by
  rwa [asFeatures, List.map_map, Function.comp_def, List.map_id']

/-- No hyperparameter that **weighs** an error is negative. -/
structure Hyper.Nonnegative (h : Hyper ℝ) : Prop where
  unobserved : 0 ≤ h.unobserved
  observed : 0 ≤ h.observed
  ridgeTheta : 0 ≤ h.ridgeTheta
  ridgeBeta : 0 ≤ h.ridgeBeta
  ridgeGamma : 0 ≤ h.ridgeGamma

/-- The settings of a model were refused if one of the hyperparameters that weigh an error were
**negative**. -/
theorem Model.nonnegative_of_ofSettings [Spelling] {s : Settings ℝ} {init : Option (VectorInit ℝ)}
    {source : Source} {m : (n : ℕ) × Model ℝ n} (h : ofSettings s init source = .ok m) :
    m.2.hyper.Nonnegative := by
  obtain ⟨hyper, globalBias, heq, hs, -⟩ := ofSettings_eq_ok h
  -- the checks, in the order they are made in: confidences first, the least of the ridges after
  obtain ⟨n, -, h⟩ := bind_eq_ok_iff.1 h
  obtain ⟨negative, hnegative, h⟩ := bind_eq_ok_iff.1 h
  obtain ⟨⟨⟩, hconfidences, h⟩ := bind_eq_ok_iff.1 h
  obtain ⟨least, hleast, h⟩ := bind_eq_ok_iff.1 h
  obtain ⟨⟨⟩, hridges, -⟩ := bind_eq_ok_iff.1 h
  obtain rfl := refuseIf_eq_ok_iff.1 hconfidences
  obtain ⟨first, hfirst, hsecond⟩ := bind_eq_ok_iff.1 hnegative
  obtain ⟨theta, htheta, hleast⟩ := bind_eq_ok_iff.1 hleast
  obtain ⟨beta, hbeta, hleast⟩ := bind_eq_ok_iff.1 hleast
  obtain ⟨gamma, hgamma, hleast⟩ := bind_eq_ok_iff.1 hleast
  obtain rfl := Except.ok.inj hleast
  have hleast := Scalar.lt_real_eq_false.1 (refuseIf_eq_ok_iff.1 hridges)
  obtain ⟨hmin, hthird⟩ := Scalar.le_min.1 hleast
  obtain ⟨hfst, hsnd⟩ := Scalar.le_min.1 hmin
  cases first with
  | true => cases hsecond
  | false =>
      rw [heq]
      exact {
        unobserved := Setting.scalar_nonneg hs.unobserved hfirst
        observed := Setting.scalar_nonneg hs.observed hsecond
        ridgeTheta := Setting.scalar_eq_number hs.ridgeTheta htheta ▸ hfst
        ridgeBeta := Setting.scalar_eq_number hs.ridgeBeta hbeta ▸ hsnd
        ridgeGamma := Setting.scalar_eq_number hs.ridgeGamma hgamma ▸ hthird }

namespace Model

variable (m : Model ℝ n) (userItems itemUsers : Table Key (List Key)) (rows : Table Key (Row ℝ))

/-- The error of the preferences as the objective defines it: every registered user with a row
against **every registered item**, where the preference is one if the item is in the row and zero
otherwise, and so is the choice between the two confidences. -/
noncomputable def entrywisePreferences : ℝ :=
  ∑ u ∈ m.theta.domain ∩ userItems.domain, ∑ i ∈ m.beta.domain,
    (if i ∈ (userItems.get? u).getD [] then m.hyper.observed else m.hyper.unobserved)
      * ((if i ∈ (userItems.get? u).getD [] then 1 else 0)
          - m.theta.vectorAt u ⬝ᵥ m.beta.vectorAt i) ^ 2

/-- What is left of a weight of two items, once the inner product of their vectors is taken away,
and the biases that are not disabled. -/
noncomputable def leftover (i j : Key) (w : ℝ) : ℝ :=
  w - m.beta.vectorAt i ⬝ᵥ m.gamma.vectorAt j - m.hyper.bias (biasAt m.betaBias) i
    - m.hyper.bias (biasAt m.gammaBias) j - m.globalBias

/-- The error of the neighbours' weights as the objective defines it: every registered item with a
context, against **every registered neighbour** in its row. -/
noncomputable def entrywiseRows : ℝ :=
  ∑ i ∈ m.beta.domain ∩ itemUsers.domain, (((rows.get? i).getD []).map fun e =>
    if e.1 ∈ m.gamma then m.leftover i e.1 e.2 ^ 2 else 0).sum

/-- The **objective, entry by entry**. -/
noncomputable def entrywiseLoss : ℝ :=
  m.entrywisePreferences userItems + m.entrywiseRows itemUsers rows + m.ridgeError

variable {m userItems}

/-- With hyperparameters that are not negative the objective is **not negative** either. -/
theorem entrywiseLoss_nonneg (h : m.hyper.Nonnegative) :
    0 ≤ m.entrywiseLoss userItems itemUsers rows := by
  have hsquares (W : Factors ℝ n) : 0 ≤ ∑ k ∈ W.domain, ∑ f, W.vectorAt k f ^ 2 :=
    Finset.sum_nonneg fun k _ => Finset.sum_nonneg fun f _ => sq_nonneg _
  have hpreferences : 0 ≤ m.entrywisePreferences userItems := by
    refine Finset.sum_nonneg fun u _ => Finset.sum_nonneg fun i _ => mul_nonneg ?_ (sq_nonneg _)
    split
    · exact h.observed
    · exact h.unobserved
  have hrows : 0 ≤ m.entrywiseRows itemUsers rows := by
    refine Finset.sum_nonneg fun i _ => List.sum_nonneg ?_
    rw [List.forall_mem_map]
    intro e _
    split
    · exact sq_nonneg _
    · exact le_rfl
  have hridges : 0 ≤ m.ridgeError :=
    add_nonneg (add_nonneg (mul_nonneg h.ridgeTheta (hsquares m.theta))
      (mul_nonneg h.ridgeBeta (hsquares m.beta))) (mul_nonneg h.ridgeGamma (hsquares m.gamma))
  exact add_nonneg (add_nonneg hpreferences hrows) hridges

/-- The samples of users have the errors of **their entries**. -/
theorem sum_userSamples (hd : userItems.Distinct) :
    ((userSamples userItems).map m.sampleLoss).sum = m.entrywisePreferences userItems := by
  rw [userSamples, List.map_map]
  refine (userItems.sum_entries fun u ks => contextError m.theta m.beta m.hyper.unobserved
    m.hyper.observed u (asFeatures (ks.getD []) 1)).trans ?_
  rw [entrywisePreferences, Finset.inter_comm, ← Finset.sum_ite_mem]
  refine Finset.sum_congr rfl fun u hu => ?_
  obtain ⟨ks, hks⟩ := Table.exists_get? (Table.mem_domain.1 hu)
  have hnodup : ks.Nodup := hd (u, ks) (Table.mem_entries_of_get? hks)
  rw [hks, Option.getD_some]
  refine if_congr Table.mem_domain.symm (Finset.sum_congr rfl fun i _ => ?_) rfl
  rw [scoreError_weightsOf (nodup_asFeatures hnodup 1), valueIn_asFeatures, entryError]
  by_cases hi : i ∈ ks
  · simp only [hi, if_true, Option.isSome_some, Option.getD_some]
  · simp only [hi, if_false, Option.isSome_none, Option.getD_none, Bool.false_eq_true]

/-- The error of a row has one square for **each entry** with a registered neighbour. -/
theorem neighborError_eq_sum_row (i : Key) (row : Row ℝ) :
    neighborError m.gamma m.seenBetaBias m.seenGammaBias m.globalBias i row (m.beta.vectorAt i)
      = (row.map fun e => if e.1 ∈ m.gamma then m.leftover i e.1 e.2 ^ 2 else 0).sum := by
  rw [sum_map_eq_sum_weightsOf m.gamma.domain row fun j w =>
    if j ∈ m.gamma then m.leftover i j w ^ 2 else 0]
  · refine Finset.sum_congr rfl fun j hj => congrArg List.sum (List.map_congr_left fun w _ => ?_)
    rw [if_pos (Table.mem_domain.1 hj), restOf, scalar_seenBetaBias, scalar_seenGammaBias,
      dotProduct_comm, leftover]
    change (w - m.hyper.bias (biasAt m.betaBias) i - m.hyper.bias (biasAt m.gammaBias) j
      - m.globalBias - m.beta.vectorAt i ⬝ᵥ m.gamma.vectorAt j) ^ 2 = _
    ring
  · intro j hj w
    exact if_neg fun hmem => hj (Table.mem_domain.2 hmem)

/-- The samples of items have the errors of **the entries of their rows**. -/
theorem sum_itemSamples :
    ((itemSamples itemUsers rows).map m.sampleLoss).sum = m.entrywiseRows itemUsers rows := by
  rw [itemSamples, List.map_map]
  refine (itemUsers.sum_entries fun i _ => if i ∈ m.beta then neighborError m.gamma
    m.seenBetaBias m.seenGammaBias m.globalBias i ((rows.get? i).getD []) (m.beta.vectorAt i)
    else 0).trans ?_
  rw [entrywiseRows, Finset.inter_comm, ← Finset.sum_ite_mem]
  exact Finset.sum_congr rfl fun i _ =>
    if_congr Table.mem_domain.symm (neighborError_eq_sum_row i _) rfl

end Model

/-! ### An example -/

namespace Small

/-- One user and two items, one of which is **not registered as a neighbour**. -/
noncomputable def model : Model ℝ 1 :=
  { (Model.empty ⟨1 / (2 : ℕ), (2 : ℕ), 1, 1, 1, ⟨.gaussian, 1, 1, 1⟩, .auc, 1, true, false⟩
      (1 / (2 : ℕ)) ⟨7, 0⟩ : Model ℝ 1) with
    theta := Table.ofList [(.text "u", Vector.singleton 1)]
    beta := Table.ofList [(.text "a", Vector.singleton 1), (.text "b", Vector.singleton (3 : ℕ))]
    gamma := Table.ofList [(.text "a", Vector.singleton (2 : ℕ))]
    betaBias := Table.ofList [(.text "a", .real 1)]
    gammaBias := Table.ofList [(.text "a", .real (-1))] }

/-- The items of the user, and those of a **stranger**. -/
def userItems : Table Key (List Key) :=
  Table.ofList [(.text "u", [.text "a"]), (.text "stranger", [.text "b"])]

/-- The users of the items. -/
def itemUsers : Table Key (List Key) := Table.ofList [(.text "a", [.text "u"]), (.text "b", [])]

/-- A row with both items as neighbours. -/
noncomputable def rows : Table Key (Row ℝ) :=
  Table.ofList [(.text "a", [(.text "a", (5 : ℕ)), (.text "b", (7 : ℕ))])]

/-- Contexts of either kind, with values of all sizes. -/
noncomputable def contexts : List (Sample ℝ) :=
  [.item (.text "a") [(.text "u", (3 : ℕ)), (.text "stranger", (4 : ℕ))] none,
    .user (.text "u") [(.text "b", (2 : ℕ))]]

theorem nonnegative : model.hyper.Nonnegative := by
  constructor <;> norm_num [model, Model.empty]

theorem onceEach : ∀ s ∈ contexts, s.OnceEach := by
  simp [contexts, Sample.OnceEach]

theorem text_ne : Key.text "a" ≠ Key.text "b" := by decide

theorem coords_singleton (x : ℝ) : Vec.coords (Vector.singleton x) = fun _ => x :=
  funext fun i => by fin_cases i; rfl

theorem domain_theta : model.theta.domain = {.text "u"} := rfl

theorem domain_beta : model.beta.domain = {.text "a", .text "b"} := rfl

theorem domain_gamma : model.gamma.domain = {.text "a"} := rfl

theorem theta_u : model.theta.vectorAt (.text "u") = fun _ => 1 := coords_singleton 1

theorem beta_a : model.beta.vectorAt (.text "a") = fun _ => 1 := coords_singleton 1

theorem beta_b : model.beta.vectorAt (.text "b") = fun _ => 3 := coords_singleton 3

theorem gamma_a : model.gamma.vectorAt (.text "a") = fun _ => 2 := coords_singleton 2

/-- The pair that is listed is **predicted exactly**, and the other one is off by three. -/
theorem entrywisePreferences_eq : model.entrywisePreferences userItems = 9 / 2 := by
  have hcommon : model.theta.domain ∩ userItems.domain = {.text "u"} := by decide
  have hrow : userItems.get? (.text "u") = some [.text "a"] := rfl
  have hunobserved : model.hyper.unobserved = 1 / 2 := rfl
  rw [Model.entrywisePreferences, hcommon, Finset.sum_singleton, domain_beta,
    Finset.sum_pair text_ne, hrow, theta_u, beta_a, beta_b, hunobserved]
  norm_num [dotProduct, text_ne.symm]

/-- One weight counts, and the biases are taken away from it. -/
theorem entrywiseRows_eq : model.entrywiseRows itemUsers rows = 25 / 4 := by
  have hcommon : model.beta.domain ∩ itemUsers.domain = {.text "a", .text "b"} := by decide
  have hrow : rows.get? (.text "a") = some [(.text "a", 5), (.text "b", 7)] := rfl
  have hnone : rows.get? (.text "b") = none := rfl
  have hin : Key.text "a" ∈ model.gamma := by decide
  have hout : Key.text "b" ∉ model.gamma := by decide
  have hown : model.hyper.bias (biasAt model.betaBias) (.text "a") = 1 := rfl
  have hother : model.hyper.bias (biasAt model.gammaBias) (.text "a") = -1 := rfl
  have hglobal : model.globalBias = 1 / 2 := rfl
  have hleft : model.leftover (.text "a") (.text "a") 5 = 5 / 2 := by
    rw [Model.leftover, beta_a, gamma_a, hown, hother, hglobal]
    norm_num [dotProduct]
  rw [Model.entrywiseRows, hcommon, Finset.sum_pair text_ne, hrow, hnone]
  norm_num [hin, hout, hleft]

theorem ridgeError_eq : model.ridgeError = 15 := by
  have htheta : model.hyper.ridgeTheta = 1 := rfl
  have hbeta : model.hyper.ridgeBeta = 1 := rfl
  have hgamma : model.hyper.ridgeGamma = 1 := rfl
  rw [Model.ridgeError, domain_theta, domain_beta, domain_gamma, Finset.sum_singleton,
    Finset.sum_singleton, Finset.sum_pair text_ne, theta_u, beta_a, beta_b, gamma_a, htheta, hbeta,
    hgamma]
  norm_num

theorem entrywiseLoss_eq : model.entrywiseLoss userItems itemUsers rows = 103 / 4 := by
  rw [Model.entrywiseLoss, entrywisePreferences_eq, entrywiseRows_eq, ridgeError_eq]
  norm_num

theorem sum_entriesError :
    (contexts.map (entriesError model.beta model.theta (1 / 2) 2)).sum = 21 / 2 := by
  have hin : Key.text "a" ∈ model.beta ∧ Key.text "u" ∈ model.theta := by decide
  simp only [contexts, List.map_cons, List.map_nil, entriesError, hin, if_true, domain_theta,
    domain_beta, Finset.sum_singleton, Finset.sum_pair text_ne, theta_u, beta_a, beta_b]
  norm_num [dotProduct, entryError, Table.valueIn, text_ne.symm]

end Small

namespace Model

/-! ### Agreement -/

/-- **The fast objective is the one that is defined entry by entry**: for every state of the
parameters, every table of users without repeated items, every table of items and all rows, the loss
of the samples in any order. It is not negative if no hyperparameter is, and no model is made with
one that is. The error of the preferences alone is defined entry by entry as well, over contexts of
users and of items and whatever the values of their features are, as long as no context repeats a
key. -/
theorem loss_eq_entrywise (m : Model ℝ n) {userItems : Table Key (List Key)}
    (hd : userItems.Distinct) (itemUsers : Table Key (List Key)) (rows : Table Key (Row ℝ)) :
    (∀ samples : List (Sample ℝ),
      samples.Perm (userSamples userItems ++ itemSamples itemUsers rows) →
        m.loss samples = .ok (m.entrywiseLoss userItems itemUsers rows)) ∧
      (m.hyper.Nonnegative → 0 ≤ m.entrywiseLoss userItems itemUsers rows) ∧
      (∀ [Spelling] (s : Settings ℝ) (init : Option (VectorInit ℝ)) (source : Source)
        (made : (k : ℕ) × Model ℝ k), ofSettings s init source = .ok made →
          made.2.hyper.Nonnegative) ∧
      ∀ {k : ℕ} (beta theta : Factors ℝ k) (c₀ c₁ : ℝ) (samples : List (Sample ℝ)),
        (∀ s ∈ samples, s.OnceEach) → CoEmbed.preferenceLoss samples beta theta c₀ c₁
          = .ok (samples.map (entriesError beta theta c₀ c₁)).sum := by
  refine ⟨fun samples hperm => ?_, entrywiseLoss_nonneg itemUsers rows,
    fun _ _ _ _ => nonnegative_of_ofSettings, fun beta theta c₀ c₁ samples honce => ?_⟩
  · have hknown : ∀ s ∈ samples, s.Known := fun s hs =>
      known_samples userItems itemUsers rows s (hperm.mem_iff.1 hs)
    rw [m.loss_samples hknown, (hperm.map m.sampleLoss).sum_eq, List.map_append, List.sum_append,
      sum_userSamples hd, sum_itemSamples, entrywiseLoss]
  · rw [preferenceLoss_samples beta theta c₀ c₁ fun s hs => (honce s hs).known]
    refine congrArg (fun xs : List ℝ => Except.ok xs.sum) (List.map_congr_left fun s hs => ?_)
    exact sampleError_eq_entriesError beta theta c₀ c₁ (honce s hs)

/-- The samples of the example are handed over **in reverse**. -/
theorem loss_eq_entrywise_reversed :
    Small.userItems.Distinct ∧ Small.model.hyper.Nonnegative ∧
      (∀ s ∈ Small.contexts, s.OnceEach) ∧
      Small.model.loss
        (userSamples Small.userItems ++ itemSamples Small.itemUsers Small.rows).reverse
          = .ok (103 / 4) ∧
      0 ≤ Small.model.entrywiseLoss Small.userItems Small.itemUsers Small.rows ∧
      CoEmbed.preferenceLoss Small.contexts Small.model.beta Small.model.theta (1 / 2 : ℝ) (2 : ℝ)
        = .ok (21 / 2) := by
  have hd : Small.userItems.Distinct := by decide
  obtain ⟨hloss, hnonneg, -, hcontexts⟩ :=
    loss_eq_entrywise Small.model hd Small.itemUsers Small.rows
  refine ⟨hd, Small.nonnegative, Small.onceEach, ?_, hnonneg Small.nonnegative, ?_⟩
  · rw [hloss _ (List.reverse_perm _), Small.entrywiseLoss_eq]
  · rw [hcontexts _ _ _ _ _ Small.onceEach, Small.sum_entriesError]

end Model

end CoEmbed
