import CoEmbed.Proofs.Objective.Entries
import CoEmbed.Proofs.Pruned
import CoEmbed.Proofs.Reordered

/-!
# Cold Users

A user is cold if the user has a row that lists no registered item. The system of a cold user asks
for nothing, so a sweep over users leaves the zero vector there. A sweep over items adds the
vectors of users up and looks at nothing else of them: to it a vector of zeros and no vector at all
are the same, in the background, in the systems of the items and in their right-hand sides.

* `Factors.sum_domain_congr`, `Factors.background_congr`, `Factors.gramOn_congr`,
  `weightedSum_congr` — sums depend on the vector of each key, and not on who has one.
* `Table.without` — a table without the rows of some keys.
* `Model.cold`, `Model.get?_of_cold` — the cold users, and their vectors after a sweep.
* `Model.Sees`, `Model.sees_updateItems` — a sweep over items with other vectors of users that add
  up to the same.
* `Model.updateItems_without` — a sweep over items after users with the zero vector are deleted.
* `Model.addedBy`, `Model.idleError`, `Model.loss_without` — what one sample adds to a loss, and
  what the contexts of such users add.
* `cold_users_are_neutral` — cold users may be deleted before a sweep over items.
* `not_forall_loss_without` — but not before a loss that looks at what they were given.

## Context convention

A loss compares the scores of a context with the values that the context observes. A user with the
zero vector has the score zero with every item, and each value that is observed for a registered
item counts in full. The context of a user that is not registered is passed over, whatever it
observes.
-/

open Matrix

namespace CoEmbed

variable {ρ : Type} {n : ℕ}

/-! ### Sums over a table -/

namespace Factors

variable {W W' : Factors ℝ n}

/-- A sum over the vectors of a table depends on **the vector of each key** alone, if the zero
vector adds nothing. -/
theorem sum_domain_congr {M : Type*} [AddCommMonoid M] (h : W'.vectorAt = W.vectorAt)
    (f : (Fin n → ℝ) → M) (hf : f 0 = 0) :
    ∑ k ∈ W'.domain, f (W'.vectorAt k) = ∑ k ∈ W.domain, f (W.vectorAt k) := by
  have hall (V : Factors ℝ n) (hsub : V.domain ⊆ W.domain ∪ W'.domain) :
      ∑ k ∈ V.domain, f (V.vectorAt k) = ∑ k ∈ W.domain ∪ W'.domain, f (V.vectorAt k) :=
    Finset.sum_subset hsub fun k _ hk => by
      rw [vectorAt_of_not_mem (mt Table.mem_domain.2 hk), hf]
  rw [hall W' Finset.subset_union_right, hall W Finset.subset_union_left, h]

theorem background_congr (h : W'.vectorAt = W.vectorAt) (c ridge : ℝ) :
    W'.background c ridge = W.background c ridge := by
  refine Mat.toMatrix_injective ?_
  rw [toMatrix_background, toMatrix_background,
    sum_domain_congr h (fun x => c • outer x) (by rw [outer_zero, smul_zero])]

theorem gramOn_congr (h : W'.vectorAt = W.vectorAt) (ks : List Key) (c : ℝ) :
    W'.gramOn ks c = W.gramOn ks c := by
  refine Mat.toMatrix_injective ?_
  rw [toMatrix_gramOn, toMatrix_gramOn, h]

end Factors

section

variable {W W' : Factors ℝ n}

theorem weightedSum_congr (h : W'.vectorAt = W.vectorAt) (ks : List Key) (c : ℝ) :
    weightedSum ks W' c = weightedSum ks W c := by
  refine Vec.coords_injective ?_
  rw [coords_weightedSum, coords_weightedSum, h]

theorem ridgeLoss_congr (h : W'.vectorAt = W.vectorAt) (ridge : ℝ) :
    ridgeLoss ridge W' = ridgeLoss ridge W := by
  rw [ridgeLoss_eq, ridgeLoss_eq,
    Factors.sum_domain_congr h (fun x => x ⬝ᵥ x) (dotProduct_zero 0)]

/-- The best vector of an **item** depends on the vectors of users alone, and not on who has
one. -/
theorem newBeta_congr [Operand ρ ℝ] (h : W'.vectorAt = W.vectorAt) (item : Key)
    (raters : List Key) (row : Row ρ) (gamma : Factors ℝ n)
    (betaBias gammaBias : Option (Table Key (Bias ℝ))) (background : Mat ℝ n n)
    (c₀ c₁ globalBias : ℝ) :
    newBeta item raters row W' gamma betaBias gammaBias background c₀ c₁ globalBias
      = newBeta item raters row W gamma betaBias gammaBias background c₀ c₁ globalBias := by
  rw [newBeta, newBeta, Factors.gramOn_congr h, weightedSum_congr h]

/-- Users none of whose items has a vector have **nothing to fit**. -/
theorem observedTarget_of_strangers {ks : List Key} (h : ∀ k ∈ ks, k ∉ W) (c₁ : ℝ) :
    observedTarget W ks c₁ = 0 := by
  refine Finset.sum_eq_zero fun k hk => ?_
  have hcount : ks.count k = 0 :=
    List.count_eq_zero_of_not_mem fun hmem => h k hmem (Table.mem_domain.1 hk)
  rw [hcount, Nat.cast_zero, zero_mul, zero_smul]

end

/-! ### Deletion -/

namespace Table

variable {κ ν : Type} [DecidableEq κ]

/-- A table **without the rows** of some keys. -/
def without (t : Table κ ν) (ks : List κ) : Table κ ν :=
  t.restrict (fun k => decide (k ∉ ks)) id

theorem get?_without_of_mem (t : Table κ ν) {ks : List κ} {k : κ} (h : k ∈ ks) :
    (t.without ks).get? k = none := by
  rw [get?_eq_none_iff, mem_iff, without, keys_restrict]
  exact fun hk => of_decide_eq_true (List.mem_filter.1 hk).2 h

theorem get?_without_of_not_mem (t : Table κ ν) {ks : List κ} {k : κ} (h : k ∉ ks) :
    (t.without ks).get? k = t.get? k := by
  rw [without, get?_restrict t id (decide_eq_true h), Option.map_id, id]

end Table

/-- Vectors of zeros may be **deleted**. -/
theorem Factors.vectorAt_without {W : Factors ℝ n} {ks : List Key}
    (h : ∀ k ∈ ks, W.get? k = some Vec.zero) :
    Factors.vectorAt (W.without ks) = W.vectorAt := by
  funext k
  rw [vectorAt]
  by_cases hk : k ∈ ks
  · rw [Table.get?_without_of_mem W hk, vectorAt_of_get? (h k hk), Vec.coords_zero]
    rfl
  · rw [Table.get?_without_of_not_mem W hk]
    rfl

namespace Model

/-- The model with other **vectors of users**. -/
def withTheta {α : Type} (theta : Factors α n) (m : Model α n) : Model α n :=
  { m with theta := theta }

/-- The model without the vectors of **some users**. -/
def without {α : Type} (m : Model α n) (us : List Key) : Model α n :=
  m.withTheta (m.theta.without us)

/-! ### After a sweep over users -/

/-- The **cold users**: those that are registered and have a row that lists no registered item. -/
def cold {α : Type} (m : Model α n) (userItems : Table Key (List Key)) : List Key :=
  m.theta.keys.filter fun u => (userItems.get? u).any fun row => (m.beta.among row).isEmpty

theorem mem_cold {α : Type} {m : Model α n} {userItems : Table Key (List Key)} {u : Key} :
    u ∈ m.cold userItems ↔
      u ∈ m.theta ∧ ∃ row, userItems.get? u = some row ∧ ∀ i ∈ row, i ∉ m.beta := by
  rw [cold, List.mem_filter, ← Table.mem_iff, Option.any_eq_true]
  refine and_congr_right fun _ => exists_congr fun row => and_congr_right fun _ => ?_
  rw [List.isEmpty_iff, Table.among, List.filter_eq_nil_iff]
  simp only [decide_eq_true_eq]

/-- A sweep over users that goes through leaves **the zero vector** at the cold users. -/
theorem get?_of_cold {m : Model ℝ n} {userItems : Table Key (List Key)}
    (hf : (m.updateUsers userItems).fault = none) {u : Key} (hu : u ∈ m.cold userItems) :
    (m.updateUsers userItems).state.theta.get? u = some Vec.zero := by
  obtain ⟨hmem, row, hrow, hstrangers⟩ := mem_cold.1 hu
  have hsolves := updateUsers_fault_eq_none_iff_solves.1 hf
  have hlisted : u ∈ userItems := Table.mem_of_get? hrow
  obtain ⟨v, hv⟩ := hsolves u hmem hlisted
  obtain ⟨hpos, heq⟩ := solution_eq_ok_iff.1 hv
  have hzero : v = Vec.zero := by
    rw [hrow, Option.getD_some] at hpos heq
    refine Vec.coords_injective ((Matrix.mulVec_injective_of_isUnit hpos.isUnit) ?_)
    rw [heq, observedTarget_of_strangers hstrangers, Vec.coords_zero, mulVec_zero]
  obtain ⟨w, hw⟩ := Table.exists_get? hmem
  rw [(updateUsers_of_solves hsolves).2.1, Table.get?_mapValues, hw, Option.map_some, resolved,
    if_pos hlisted, hv, ← hzero]
  rfl

/-! ### A sweep over items -/

section

variable [Operand ρ ℝ] {m : Model ℝ n} {theta : Factors ℝ n}

/-! A step computes its value from the vectors of users alone, or does not look at them. -/

theorem updateBeta_withTheta (h : theta.vectorAt = m.theta.vectorAt) (background : Mat ℝ n n)
    (i : Key) (raters : List Key) (row : Row ρ) :
    updateBeta background (m.withTheta theta) i raters row
      = (updateBeta background m i raters row).map (withTheta theta) := by
  rw [updateBeta_eq_writing, updateBeta_eq_writing]
  have hvalue := newBeta_congr h i raters row m.gamma m.seenBetaBias m.seenGammaBias background
    m.hyper.unobserved m.hyper.observed m.globalBias
  have hwrite (v : Vec ℝ n) :
      (m.withTheta theta).setBeta i v = (m.setBeta i v).withTheta theta := rfl
  exact (congrArg _ hvalue).trans (Outcome.map_writing hwrite _)

theorem updateGamma_withTheta (m : Model ℝ n) (theta : Factors ℝ n) (i : Key) (row : Row ρ) :
    updateGamma (m.withTheta theta) i row
      = (updateGamma m i row).map (withTheta theta) := by
  rw [updateGamma_eq_writing, updateGamma_eq_writing]
  exact Outcome.map_writing (fun o => by cases o <;> rfl) _

theorem updateBiases_withTheta (m : Model ℝ n) (theta : Factors ℝ n) (i : Key) (row : Row ρ) :
    updateBiases (m.withTheta theta) i row
      = (updateBiases m i row).map (withTheta theta) := by
  rw [updateBiases_eq_writing, updateBiases_eq_writing]
  refine Outcome.map_bind (Outcome.map_writing (fun o => ?_) _) fun s =>
    Outcome.map_writing (fun o => ?_) _
  · cases o <;> rfl
  · cases o <;> rfl

theorem updateGlobal_withTheta (m : Model ℝ n) (theta : Factors ℝ n) (items : List Key)
    (rows : Table Key (Row ρ)) :
    updateGlobal (m.withTheta theta) items rows
      = (updateGlobal m items rows).map (withTheta theta) := by
  rw [updateGlobal_eq_writing, updateGlobal_eq_writing]
  exact Outcome.map_ite Iff.rfl (Outcome.map_writing (fun o => by cases o <;> rfl) _) rfl

end

/-- Two models that are the same **but for the vectors of users**, which one of them has as they
were and the other has exchanged for some others, and for what they have counted. -/
structure Sees (theta theta' : Factors ℝ n) (m m' : Model ℝ n) : Prop where
  theta : m.theta = theta
  rest : ∃ c, m' = (m.withTheta theta').withCounters c

section

variable [Operand ρ ℝ] {theta theta' : Factors ℝ n} {m m' : Model ℝ n}

/-- A step that leaves the vectors of users alone, taken with **others** and with other counters. -/
theorem Sees.of_map {o : Outcome (Model ℝ n)} (h : o.state.theta = theta) (theta' : Factors ℝ n)
    (c : Counters) :
    Outcome.Agree (Sees theta theta') o
      ((o.map (withTheta theta')).map fun m => m.withCounters c) :=
  ⟨rfl, h, c, rfl⟩

omit [Operand ρ ℝ] in
/-- What writes entries of items keeps the vectors of users. -/
theorem WritesItems.theta_eq {p : Key → Prop} (h : WritesItems p m m') : m'.theta = m.theta := by
  rw [h.rest]

/-- At a row of a **sweep over items** it makes no difference who has the zero vector and who has
none. -/
theorem sees_sweepItem (hsame : theta'.vectorAt = theta.vectorAt) (background : Mat ℝ n n)
    (rows : Table Key (Row ρ)) (h : Sees theta theta' m m') (row : Key × List Key) :
    Outcome.Agree (Sees theta theta') (sweepItem background rows m row)
      (sweepItem background rows m' row) := by
  obtain ⟨htheta, c, rfl⟩ := h
  rcases sweepItem_cases background rows m row with ⟨hnot, hstep⟩ | ⟨hmem, c₁, hstep⟩
  · rw [hstep, sweepItem, if_neg (c := row.1 ∈ ((m.withTheta theta').withCounters c).beta) hnot]
    exact ⟨rfl, htheta, c, rfl⟩
  rcases sweepItem_cases background rows ((m.withTheta theta').withCounters c) row with
    ⟨hnot, -⟩ | ⟨-, c₂, hstep'⟩
  · exact absurd hmem hnot
  rw [hstep, hstep']
  refine Outcome.Agree.bind (Outcome.Agree.bind ?_ ?_) ?_
  · change Outcome.Agree _ _ (updateBeta background
      (((m.withCounters c₁).withTheta theta').withCounters c₂) _ _ _)
    rw [updateBeta_withCounters background ((m.withCounters c₁).withTheta theta') c₂,
      updateBeta_withTheta (m := m.withCounters c₁)
        (hsame.trans (congrArg Factors.vectorAt htheta.symm))]
    exact Sees.of_map ((writesItems_updateBeta background (m.withCounters c₁) _ _ _).theta_eq.trans
      htheta) theta' c₂
  · rintro s _ ⟨hs, c', rfl⟩
    rw [updateGamma_withCounters, updateGamma_withTheta]
    exact Sees.of_map ((writesItems_updateGamma s _ _).theta_eq.trans hs) theta' c'
  · rintro s _ ⟨hs, c', rfl⟩
    by_cases hb : s.hyper.useBias = true
    · rw [if_pos hb, if_pos (c := ((s.withTheta theta').withCounters c').hyper.useBias = true) hb,
        updateBiases_withCounters, updateBiases_withTheta]
      exact Sees.of_map ((writesItems_updateBiases s _ _).theta_eq.trans hs) theta' c'
    · rw [if_neg hb, if_neg (c := ((s.withTheta theta').withCounters c').hyper.useBias = true) hb]
      exact ⟨rfl, hs, c', rfl⟩

theorem theta_updateGlobal (m : Model ℝ n) (items : List Key) (rows : Table Key (Row ρ)) :
    (updateGlobal m items rows).state.theta = m.theta := by
  by_cases hg : m.hyper.updateGlobalBias = true
  · rcases updateGlobal_cases m items rows hg with
      ⟨b, -, hstep⟩ | ⟨-, hstep⟩ | ⟨f, -, hstep⟩ <;> rw [hstep] <;> rfl
  · rw [updateGlobal, if_neg hg]
    rfl

/-- A **sweep over items** goes as it would go with other vectors of users, if they are the same
vectors but for some zeros. -/
theorem sees_updateItems (h : theta.vectorAt = m.theta.vectorAt)
    (itemUsers : Table Key (List Key)) (rows : Table Key (Row ρ)) :
    Outcome.Agree (Sees m.theta theta) (m.updateItems itemUsers rows)
      ((m.withTheta theta).updateItems itemUsers rows) := by
  have hbackground : (m.withTheta theta).theta.background (m.withTheta theta).hyper.unobserved
      (m.withTheta theta).hyper.ridgeBeta
        = m.theta.background m.hyper.unobserved m.hyper.ridgeBeta :=
    Factors.background_congr h _ _
  have hstart : Sees m.theta theta m (m.withTheta theta) := ⟨rfl, m.counters, rfl⟩
  have hrows := Outcome.Agree.each_kept (p := fun _ => true) (g := id)
    (fun _ _ _ _ => nofun) (fun s s' row hs _ => sees_sweepItem h
      (m.theta.background m.hyper.unobserved m.hyper.ridgeBeta) rows hs row) hstart
    itemUsers.entries
  rw [List.filter_true, List.map_id] at hrows
  rw [updateItems, updateItems, hbackground]
  refine Outcome.Agree.bind (Outcome.Agree.bind hrows ?_) ?_
  · rintro s _ ⟨hs, c, rfl⟩
    rw [updateGlobal_withCounters, updateGlobal_withTheta]
    exact Sees.of_map ((theta_updateGlobal s _ rows).trans hs) theta c
  · rintro s _ ⟨hs, c, rfl⟩
    exact ⟨rfl, hs, _, rfl⟩

/-- Users that have the vector zero may be **deleted before a sweep over items**: it ends with the
same fault, and leaves the same model without them. -/
theorem updateItems_without {us : List Key} (h : ∀ u ∈ us, m.theta.get? u = some Vec.zero)
    (itemUsers : Table Key (List Key)) (rows : Table Key (Row ρ)) :
    ((m.without us).updateItems itemUsers rows).fault = (m.updateItems itemUsers rows).fault ∧
      (m.updateItems itemUsers rows).state.theta = m.theta ∧
      ∃ c, ((m.without us).updateItems itemUsers rows).state
        = ((m.updateItems itemUsers rows).state.without us).withCounters c := by
  obtain ⟨hfault, htheta, c, hstate⟩ :=
    sees_updateItems (Factors.vectorAt_without h) itemUsers rows
  refine ⟨hfault, htheta, c, hstate.trans ?_⟩
  rw [without, htheta]

end

end Model

/-! ### Losses -/

/-- A loop that adds up terms ends higher by **what is added to its terms**, and fails where it
fails without. -/
theorem foldlM_add_map {ε κ : Type*} {term term' : κ → Except ε ℝ} {f : κ → ℝ} {xs : List κ}
    (h : ∀ x ∈ xs, term x = (term' x).map fun y => y + f x) :
    xs.foldlM (fun s x => (term x).map fun y => s + y) 0
      = (xs.foldlM (fun s x => (term' x).map fun y => s + y) 0).map fun s =>
          s + (xs.map f).sum := by
  have hshift (s d : ℝ) : xs.foldlM (fun s x => (term x).map fun y => s + y) (s + d)
      = (xs.foldlM (fun s x => (term' x).map fun y => s + y) s).map fun s =>
          s + (d + (xs.map f).sum) := by
    induction xs generalizing s d with
    | nil => exact congrArg (fun y => Except.ok (s + y)) (add_zero d).symm
    | cons x xs ih =>
        rw [List.foldlM_cons, List.foldlM_cons, h x List.mem_cons_self, List.map_cons,
          List.sum_cons, ← add_assoc]
        cases term' x with
        | error e => rfl
        | ok y =>
            have hrest := ih (fun z hz => h z (List.mem_cons_of_mem x hz)) (s + y) (d + f x)
            rwa [add_add_add_comm] at hrest
  have hstart := hshift 0 0
  rwa [add_zero, zero_add] at hstart

section

variable [Operand ρ ℝ]

/-- The **number** that a value is read as, zero if it cannot be read. -/
noncomputable def readAs (x : ρ) : ℝ := (Operand.operand x : Except Fault ℝ).toOption.getD 0

/-- The error of the zero vector: the squares of **the values observed for registered items**, with
their confidence. -/
noncomputable def idleError (beta : Factors ℝ n) (c₁ : ℝ) (features : List (Feature ρ)) : ℝ :=
  (features.map fun f => if f.1 ∈ beta then c₁ * readAs f.2 ^ 2 else 0).sum

/-- Values that are **zero** are what the zero vector predicts. -/
theorem idleError_eq_zero {beta : Factors ℝ n} {features : List (Feature ρ)}
    (h : ∀ f ∈ features, f.1 ∈ beta → readAs f.2 = 0) (c₁ : ℝ) :
    idleError beta c₁ features = 0 := by
  refine List.sum_eq_zero fun x hx => ?_
  obtain ⟨f, hf, rfl⟩ := List.mem_map.1 hx
  by_cases hmem : f.1 ∈ beta
  · rw [if_pos hmem, h f hf hmem, zero_pow two_ne_zero, mul_zero]
  · rw [if_neg hmem]

/-- Against a table the zero vector has **the error of what is observed**, if that can be read. -/
theorem sliceLoss_zero {beta : Factors ℝ n} {features : List (Feature ρ)}
    (h : ∀ f ∈ features, f.1 ∈ beta → ∃ x : ℝ, Operand.operand f.2 = .ok x) (c₀ c₁ : ℝ) :
    sliceLoss (Vec.zero : Vec ℝ n) beta features c₀ c₁ = .ok (idleError beta c₁ features) := by
  have hall : beta.values.mapM (fun w => paired w (Vec.zero : Vec ℝ n))
      = (.ok (beta.values.map fun _ => 0) : Except Fault (List ℝ)) := by
    simp only [paired_eq, Vec.coords_zero, dotProduct_zero]
    exact List.mapM_pure
  have hsum : Scalar.total ((beta.values.map fun _ => (0 : ℝ)).map fun p => p * p) = 0 := by
    rw [Scalar.total_real, List.map_map]
    refine List.sum_eq_zero fun x hx => ?_
    obtain ⟨-, -, rfl⟩ := List.mem_map.1 hx
    exact mul_zero 0
  rw [sliceLoss, hall]
  change List.foldlM _ _ features = _
  rw [hsum, foldlM_ok_add _ fun f => if f.1 ∈ beta then c₁ * readAs f.2 ^ 2 else 0]
  · change Except.ok (c₀ * 0 + _) = _
    rw [mul_zero, zero_add]
    rfl
  · intro s f hf
    cases hw : beta.get? f.1 with
    | none => rw [if_neg (Table.get?_eq_none_iff.1 hw), add_zero]
    | some w =>
        have hmem : f.1 ∈ beta := Table.mem_of_get? hw
        obtain ⟨x, hx⟩ := h f hf hmem
        have hread : readAs f.2 = x := by
          rw [readAs, hx]
          rfl
        simp only [hmem, if_true, paired_eq, Vec.coords_zero, zero_dotProduct, operand_scalar,
          squared_real, hx, hread]
        change Except.ok _ = Except.ok _
        congr 1
        ring

namespace Model

variable {m : Model ℝ n} {us : List Key}

/-- What **one sample** adds to the loss because some users have the vector zero, and would not add
if they had none. -/
noncomputable def idleError (m : Model ℝ n) (us : List Key) : Sample ρ → ℝ
  | .user u features => if u ∈ us then CoEmbed.idleError m.beta m.hyper.observed features else 0
  | .item _ _ _ => 0
  | .foreign _ => 0

/-- Contexts that observe **zeros** for registered items add nothing. -/
theorem sum_idleError_eq_zero {samples : List (Sample ρ)}
    (h : ∀ u features, Sample.user u features ∈ samples → u ∈ us →
      ∀ f ∈ features, f.1 ∈ m.beta → (Operand.operand f.2 : Except Fault ℝ) = .ok 0) :
    (samples.map (m.idleError us)).sum = 0 := by
  refine List.sum_eq_zero fun x hx => ?_
  obtain ⟨s, hs, rfl⟩ := List.mem_map.1 hx
  cases s with
  | item i features row => rfl
  | foreign t => rfl
  | user u features =>
      rw [idleError]
      by_cases hu : u ∈ us
      · rw [if_pos hu]
        refine idleError_eq_zero (fun f hf hmem => ?_) _
        rw [readAs, h u features hs hu f hf hmem]
        rfl
      · rw [if_neg hu]

/-- The contexts of some users observe **numbers** for registered items. -/
def Legible (m : Model ℝ n) (us : List Key) (samples : List (Sample ρ)) : Prop :=
  ∀ u features, Sample.user u features ∈ samples → u ∈ us →
    ∀ f ∈ features, f.1 ∈ m.beta → ∃ x : ℝ, Operand.operand f.2 = .ok x

/-- What **one sample adds** to the error of the preferences: nothing, if its key has no vector or
there is none to be compared with. -/
noncomputable def addedBy (m : Model ℝ n) : Sample ρ → Except Fault ℝ
  | .foreign t => .error (.foreignRecord t)
  | .user u features => match m.theta.get? u with
    | none => .ok 0
    | some v =>
      if m.beta.size = 0 then .ok 0
      else sliceLoss v m.beta features m.hyper.unobserved m.hyper.observed
  | .item i features _ => match m.beta.get? i with
    | none => .ok 0
    | some v =>
      if m.theta.size = 0 then .ok 0
      else sliceLoss v m.theta features m.hyper.unobserved m.hyper.observed

/-- The error of the preferences is added up **sample by sample**. -/
theorem preferenceLoss_eq_foldlM (m : Model ℝ n) (samples : List (Sample ρ)) :
    m.preferenceLoss samples
      = samples.foldlM (fun loss s => (m.addedBy s).map fun x => loss + x) 0 := by
  have hnothing (loss : ℝ) :
      Except.ok loss = (Except.ok 0 : Except Fault ℝ).map fun x => loss + x :=
    congrArg Except.ok (add_zero loss).symm
  rw [preferenceLoss, CoEmbed.preferenceLoss]
  congr 1
  funext loss s
  cases s with
  | foreign t => rfl
  | user u features =>
      dsimp only [addedBy]
      cases m.theta.get? u with
      | none => exact hnothing loss
      | some v =>
          dsimp only
          rw [apply_ite (Except.map _), ← hnothing]
  | item i features row =>
      dsimp only [addedBy]
      cases m.beta.get? i with
      | none => exact hnothing loss
      | some v =>
          dsimp only
          rw [apply_ite (Except.map _), ← hnothing]

/-- The context of a user adds **as much as it would without** the users that have the vector zero,
and what it observes if it is one of theirs. -/
theorem addedBy_user_without (h : ∀ u ∈ us, m.theta.get? u = some Vec.zero) {u : Key}
    {features : List (Feature ρ)} (hlegible : u ∈ us → ∀ f ∈ features, f.1 ∈ m.beta →
      ∃ x : ℝ, Operand.operand f.2 = .ok x) :
    m.addedBy (.user u features) = ((m.without us).addedBy (.user u features)).map fun x =>
      x + m.idleError us (.user u features) := by
  by_cases hu : u ∈ us
  · have hnone : (m.without us).addedBy (.user u features) = .ok 0 := by
      rw [addedBy, without, withTheta, Table.get?_without_of_mem _ hu]
    have hidle : m.idleError us (.user u features)
        = CoEmbed.idleError m.beta m.hyper.observed features := if_pos hu
    rw [hnone, hidle, addedBy, h u hu]
    change _ = Except.ok (0 + _)
    rw [zero_add]
    dsimp only
    by_cases hsize : m.beta.size = 0
    · have hempty : ∀ f ∈ features, f.1 ∈ m.beta → readAs f.2 = 0 := fun f _ hf => by
        rw [← Table.mem_domain, Factors.size_eq_zero_iff.1 hsize] at hf
        exact absurd hf (Finset.notMem_empty f.1)
      rw [if_pos hsize, idleError_eq_zero hempty]
    · rw [if_neg hsize, sliceLoss_zero (hlegible hu)]
  · have hsame : (m.without us).addedBy (.user u features) = m.addedBy (.user u features) := by
      rw [addedBy, addedBy, without, withTheta, Table.get?_without_of_not_mem _ hu]
    have hidle : m.idleError us (.user u features) = 0 := if_neg hu
    rw [hsame, hidle]
    cases m.addedBy (.user u features) with
    | error f => rfl
    | ok x => exact congrArg Except.ok (add_zero x).symm

/-- The error of the **preferences** of users, with and without those that have the vector zero. -/
theorem preferenceLoss_without (h : ∀ u ∈ us, m.theta.get? u = some Vec.zero)
    {samples : List (Sample ρ)} (husers : ∀ s ∈ samples, s.isUser = .ok true)
    (hlegible : m.Legible us samples) :
    m.preferenceLoss samples = ((m.without us).preferenceLoss samples).map fun t =>
      t + (samples.map (m.idleError us)).sum := by
  rw [preferenceLoss_eq_foldlM, preferenceLoss_eq_foldlM]
  refine foldlM_add_map fun s hs => ?_
  cases s with
  | user u features => exact addedBy_user_without h (hlegible u features hs)
  | item i features row => cases husers _ hs
  | foreign t => cases husers _ hs

omit [Operand ρ ℝ] in
/-- Samples that can be told apart are **known**. -/
theorem known_of_separate {samples users items : List (Sample ρ)}
    (h : separate samples = .ok (users, items)) : ∀ s ∈ samples, s.Known := by
  induction samples generalizing users items with
  | nil => exact nofun
  | cons s samples ih =>
      obtain ⟨b, hb, hrest⟩ := bind_eq_ok_iff.1 h
      obtain ⟨⟨users', items'⟩, hsep, -⟩ := bind_eq_ok_iff.1 hrest
      refine List.forall_mem_cons.2 ⟨?_, ih hsep⟩
      cases s with
      | user u features => exact trivial
      | item i features row => exact trivial
      | foreign t => cases hb

/-- Without the users that have the vector zero **the loss** is lower by the values that their
contexts observe, and fails where it fails with them. -/
theorem loss_without (h : ∀ u ∈ us, m.theta.get? u = some Vec.zero) {samples : List (Sample ρ)}
    (hlegible : m.Legible us samples) :
    m.loss samples = ((m.without us).loss samples).map fun t =>
      t + (samples.map (m.idleError us)).sum := by
  have hridge : m.ridgeLoss = (m.without us).ridgeLoss := by
    have htheta : CoEmbed.ridgeLoss m.hyper.ridgeTheta (m.theta.without us)
        = CoEmbed.ridgeLoss m.hyper.ridgeTheta m.theta :=
      ridgeLoss_congr (Factors.vectorAt_without h) _
    rw [ridgeLoss, ← htheta]
    rfl
  have hneighbors (items : List (Sample ρ)) :
      m.neighborLoss items = (m.without us).neighborLoss items := rfl
  rw [loss, loss]
  cases hsep : separate samples with
  | error f => rfl
  | ok p =>
      obtain ⟨users, items, hsep', hperm, husers, hitems⟩ :=
        exists_separate (known_of_separate (hsep : separate samples = .ok (p.1, p.2)))
      obtain rfl : p = (users, items) := Except.ok.inj (hsep.symm.trans hsep')
      have hidle : (samples.map (m.idleError us)).sum = (users.map (m.idleError us)).sum := by
        have hnothing : (items.map (m.idleError us)).sum = 0 := by
          refine List.sum_eq_zero fun x hx => ?_
          obtain ⟨s, hs, rfl⟩ := List.mem_map.1 hx
          cases s with
          | user u features => cases hitems _ hs
          | item i features row => rfl
          | foreign t => cases hitems _ hs
        rw [(hperm.map (m.idleError us)).sum_eq, List.map_append, List.sum_append, hnothing,
          add_zero]
      have hpreferences := preferenceLoss_without h husers
        fun u features hs => hlegible u features (hperm.mem_iff.2 (List.mem_append_left _ hs))
      rw [hidle]
      simp only [bind, Except.bind, hpreferences, hneighbors, hridge]
      cases (m.without us).preferenceLoss users with
      | error f => rfl
      | ok x =>
          cases (m.without us).neighborLoss items with
          | error f => rfl
          | ok y =>
              cases (m.without us).ridgeLoss with
              | error f => rfl
              | ok z =>
                  refine congrArg Except.ok ?_
                  ring

/-- After a sweep over items the loss is lower **by as much** if the users have been deleted before
it. -/
theorem loss_updateItems_without (h : ∀ u ∈ us, m.theta.get? u = some Vec.zero)
    (itemUsers : Table Key (List Key)) (rows : Table Key (Row ρ)) {samples : List (Sample ρ)}
    (hlegible : (m.updateItems itemUsers rows).state.Legible us samples) :
    (m.updateItems itemUsers rows).state.loss samples
      = (((m.without us).updateItems itemUsers rows).state.loss samples).map fun x =>
          x + (samples.map ((m.updateItems itemUsers rows).state.idleError us)).sum := by
  obtain ⟨-, htheta, c, hstate⟩ := updateItems_without h itemUsers rows
  rw [hstate]
  exact loss_without (fun u hu => by rw [htheta, h u hu]) hlegible

end Model

/-- **Cold users are neutral**. A sweep over users that goes through leaves the zero vector at each
registered user whose row lists no registered item. If all of them are deleted, a sweep over items
that follows ends with the same fault, or none, and leaves the same vectors and biases of items and
the same global bias. Then every loss is the same in which the contexts of the deleted users observe
nothing but zeros for registered items, and any other is lower by the squares of the values that
they observe, times the confidence in them. -/
theorem cold_users_are_neutral (m : Model ℝ n) (userItems : Table Key (List Key))
    (hf : (m.updateUsers userItems).fault = none) :
    let swept := (m.updateUsers userItems).state
    let cold := m.cold userItems
    (∀ u ∈ cold, swept.theta.get? u = some Vec.zero) ∧
      ∀ (itemUsers : Table Key (List Key)) (rows : Table Key (Row ρ)),
        let kept := swept.updateItems itemUsers rows
        let deleted := (swept.without cold).updateItems itemUsers rows
        deleted.fault = kept.fault ∧ deleted.state.beta = kept.state.beta ∧
          deleted.state.gamma = kept.state.gamma ∧
          deleted.state.betaBias = kept.state.betaBias ∧
          deleted.state.gammaBias = kept.state.gammaBias ∧
          deleted.state.globalBias = kept.state.globalBias ∧
          ∀ samples : List (Sample ρ),
            ((∀ u features, Sample.user u features ∈ samples → u ∈ cold →
                ∀ f ∈ features, f.1 ∈ kept.state.beta →
                  (Operand.operand f.2 : Except Fault ℝ) = .ok 0) →
              deleted.state.loss samples = kept.state.loss samples) ∧
            (kept.state.Legible cold samples →
              kept.state.loss samples = (deleted.state.loss samples).map fun x =>
                x + (samples.map (kept.state.idleError cold)).sum) := by
  intro swept cold
  have hzero : ∀ u ∈ cold, swept.theta.get? u = some Vec.zero := fun u hu =>
    Model.get?_of_cold hf hu
  refine ⟨hzero, fun itemUsers rows => ?_⟩
  intro kept deleted
  have hloss (samples : List (Sample ρ)) (hlegible : kept.state.Legible cold samples) :
      kept.state.loss samples = (deleted.state.loss samples).map fun x =>
        x + (samples.map (kept.state.idleError cold)).sum :=
    Model.loss_updateItems_without hzero itemUsers rows hlegible
  obtain ⟨hfault, -, c, hstate⟩ := Model.updateItems_without hzero itemUsers rows
  rw [show deleted.state = _ from hstate] at hloss ⊢
  refine ⟨hfault, rfl, rfl, rfl, rfl, rfl, fun samples => ⟨fun hzeros => ?_, hloss samples⟩⟩
  have hlegible : kept.state.Legible cold samples := fun u features hs hu f hf hmem =>
    ⟨0, hzeros u features hs hu f hf hmem⟩
  have hnothing : (samples.map (kept.state.idleError cold)).sum = 0 :=
    Model.sum_idleError_eq_zero hzeros
  rw [hloss samples hlegible, hnothing]
  cases ((kept.state.without cold).withCounters c).loss samples with
  | error f => rfl
  | ok x => exact congrArg Except.ok (add_zero x).symm

end

/-- Two users, one of whose rows will list **a stranger alone**, and one item. -/
noncomputable def Model.chilly : Model ℝ 1 :=
  { (Model.empty { Hyper.distrustful with observed := 1 } 0 ⟨0, 0⟩ : Model ℝ 1) with
    theta := Table.ofList [(.text "u", Vector.singleton 1), (.text "v", Vector.singleton 1)]
    beta := Table.ofList [(.text "a", Vector.singleton 1)]
    gamma := Table.ofList [(.text "a", Vector.singleton 1)]
    betaBias := Table.ofList [(.text "a", .real 0)]
    gammaBias := Table.ofList [(.text "a", .real 0)] }

/-- Rows of a stranger, and of the item. -/
def Table.chilly : Table Key (List Key) :=
  Table.ofList [(.text "u", [.text "ghost"]), (.text "v", [.text "a"])]

theorem Model.updateUsers_chilly : (Model.chilly.updateUsers Table.chilly).fault = none :=
  Model.updateUsers_fault_eq_none_iff.2 fun _ _ _ =>
    posDef_observedMatrix_of_le Model.chilly.beta _ zero_le_one le_rfl zero_lt_one

theorem Model.cold_chilly : Model.chilly.cold Table.chilly = [.text "u"] := by
  decide

/-- After both sweeps **the same item** is registered as before. -/
theorem Model.frame_chilly (itemUsers : Table Key (List Key)) (rows : Table Key (Row ℝ)) :
    Model.chilly.Frame
      ((Model.chilly.updateUsers Table.chilly).state.updateItems itemUsers rows).state := by
  have haligned : Model.chilly.Aligned := ⟨rfl, rfl, rfl⟩
  have husers := (Model.keeps_updateUsers Model.chilly Table.chilly).frame
  exact husers.trans (Model.keeps_updateItems (haligned.of_frame husers) itemUsers rows).frame

/-- The cold user is listed as a rater of the item, and has a context of its own. -/
theorem cold_users_are_neutral_chilly :
    let swept := (Model.chilly.updateUsers Table.chilly).state
    let itemUsers : Table Key (List Key) := Table.ofList [(.text "a", [.text "u", .text "v"])]
    let rows : Table Key (Row ℝ) := Table.ofList [(.text "a", [(.text "a", 3)])]
    let samples : List (Sample ℝ) := [.user (.text "u") [(.text "ghost", 5), (.text "a", 0)],
      .user (.text "v") [(.text "a", 1)], .item (.text "a") [] (some [(.text "a", 3)])]
    let kept := swept.updateItems itemUsers rows
    let deleted := (swept.without [.text "u"]).updateItems itemUsers rows
    (Model.chilly.updateUsers Table.chilly).fault = none ∧
      Model.chilly.cold Table.chilly = [.text "u"] ∧
      swept.theta.get? (.text "u") = some Vec.zero ∧ deleted.fault = kept.fault ∧
      deleted.state.beta = kept.state.beta ∧ deleted.state.globalBias = kept.state.globalBias ∧
      deleted.state.loss samples = kept.state.loss samples := by
  intro swept itemUsers rows samples kept deleted
  have hneutral := cold_users_are_neutral (ρ := ℝ) Model.chilly Table.chilly
    Model.updateUsers_chilly
  rw [Model.cold_chilly] at hneutral
  obtain ⟨hzero, hsweep⟩ := hneutral
  obtain ⟨hfault, hbeta, -, -, -, hglobal, hloss⟩ := hsweep itemUsers rows
  refine ⟨Model.updateUsers_chilly, Model.cold_chilly, hzero _ List.mem_cons_self, hfault, hbeta,
    hglobal, (hloss samples).1 ?_⟩
  have hghost : .text "ghost" ∉ kept.state.beta := by
    rw [Table.mem_iff, (Model.frame_chilly itemUsers rows).beta]
    decide
  intro u features hs hu f hf hmem
  obtain rfl := List.mem_singleton.1 hu
  obtain rfl : features = [(.text "ghost", 5), (.text "a", 0)] := by
    simpa [samples] using hs
  rcases List.mem_cons.1 hf with rfl | hf
  · exact absurd hmem hghost
  · rw [List.mem_singleton.1 hf]
    rfl

/-- The **context of a cold user** counts while the user is registered. -/
theorem not_forall_loss_without :
    ¬ ∀ (m : Model ℝ 1) (userItems itemUsers : Table Key (List Key)) (rows : Table Key (Row ℝ))
      (samples : List (Sample ℝ)), (m.updateUsers userItems).fault = none →
      let swept := (m.updateUsers userItems).state
      ((swept.without (m.cold userItems)).updateItems itemUsers rows).state.loss samples
        = (swept.updateItems itemUsers rows).state.loss samples := by
  intro h
  let samples : List (Sample ℝ) := [.user (.text "u") [(.text "a", 1)]]
  let swept := (Model.chilly.updateUsers Table.chilly).state
  let rows : Table Key (Row ℝ) := Table.empty
  let kept := swept.updateItems Table.empty rows
  let deleted := (swept.without (Model.chilly.cold Table.chilly)).updateItems Table.empty rows
  have hsame : deleted.state.loss samples = kept.state.loss samples :=
    h Model.chilly Table.chilly Table.empty rows samples Model.updateUsers_chilly
  have hless : kept.state.loss samples = (deleted.state.loss samples).map fun x =>
      x + (samples.map (kept.state.idleError (Model.chilly.cold Table.chilly))).sum :=
    Model.loss_updateItems_without (fun u hu => Model.get?_of_cold Model.updateUsers_chilly hu)
      Table.empty rows fun _ _ _ _ f _ _ => ⟨f.2, rfl⟩
  have hexcess : (samples.map (kept.state.idleError (Model.chilly.cold Table.chilly))).sum = 1 := by
    have hframe := Model.frame_chilly Table.empty rows
    have ha : .text "a" ∈ kept.state.beta := by
      rw [Table.mem_iff, hframe.beta]
      decide
    have hobserved : kept.state.hyper.observed = 1 := congrArg Hyper.observed hframe.hyper
    rw [Model.cold_chilly]
    simp only [samples, List.map_cons, List.map_nil, List.sum_cons, List.sum_nil, Model.idleError,
      idleError, ha, hobserved, List.mem_singleton, if_true, readAs, operand_scalar]
    norm_num [Except.toOption]
  obtain ⟨x, hx⟩ : ∃ x, deleted.state.loss samples = .ok x :=
    ⟨_, Model.loss_samples _ (List.forall_mem_singleton.2 trivial)⟩
  rw [← hsame, hexcess, hx] at hless
  exact absurd (Except.ok.inj hless) (by norm_num)

end CoEmbed
