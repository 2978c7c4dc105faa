import CoEmbed.Proofs.Minimum.Basic
import CoEmbed.Proofs.Objective.Stationary
import CoEmbed.Proofs.Writes

/-!
# The Sweep over Users as one Minimisation

With the vectors of the items fixed, each user's vector has an error and a ridge of its own. A
sweep that goes through has put the bottom of each in place, so it has minimised their sum over
all vectors of its users at once.

* `retrained` — the tables that differ from a table of users' vectors at users with a row only.
* `Model.usersLoss`, `Model.usersLoss_eq` — what a sweep over users lowers.
* `Model.solution` — the solution of the system of one user.
* `Model.Solved`, `Model.Solved.step`, `Model.solved_sweepUsers` — what the rows of a sweep over
  users put in place.
* `Model.updateUsers_fault_eq_none_iff` — when a sweep over users goes through.
* `Model.userError_lt` — where there is one minimum over all tables, there is one for each user.
* `updateUsers_is_joint_minimum` — a sweep minimises, jointly and uniquely, wherever that can be
  done.

## Stranger convention

A user without a vector gets none and has no error, and an item without a vector is observed by
nobody. Both may be listed.
-/

open Matrix

namespace CoEmbed

variable {n : ℕ}

/-- The tables that differ from a table of users' vectors at **users with a row** only, and have
the same users. -/
def retrained (theta : Factors ℝ n) (userItems : Table Key (List Key)) : Set (Factors ℝ n) :=
  {theta' | theta'.keys = theta.keys ∧ ∀ u, u ∉ userItems → theta'.get? u = theta.get? u}

namespace retrained

variable {theta theta' theta'' : Factors ℝ n} {userItems : Table Key (List Key)}

theorem domain_eq (h : theta' ∈ retrained theta userItems) : theta'.domain = theta.domain := by
  rw [Table.domain, h.1, Table.domain]

/-- Two such tables are the same if **every registered user with a row** has the same vector. -/
theorem ext (h : theta' ∈ retrained theta userItems) (h' : theta'' ∈ retrained theta userItems)
    (hsame : ∀ u ∈ theta.domain ∩ userItems.domain, theta'.vectorAt u = theta''.vectorAt u) :
    theta' = theta'' := by
  refine (Factors.eq_iff (h.1.trans h'.1.symm)).2 (funext fun u => ?_)
  by_cases hrow : u ∈ userItems
  · by_cases hu : u ∈ theta
    · exact hsame u (Finset.mem_inter.2 ⟨Table.mem_domain.2 hu, Table.mem_domain.2 hrow⟩)
    · have hstranger : ∀ W : Factors ℝ n, W.keys = theta.keys → W.vectorAt u = 0 := fun W hW =>
        Factors.vectorAt_of_not_mem (by rwa [Table.mem_iff, hW])
      rw [hstranger theta' h.1, hstranger theta'' h'.1]
  · rw [Factors.vectorAt, Factors.vectorAt, h.2 u hrow, h'.2 u hrow]

end retrained

namespace Model

/-! ### The loss -/

/-- What a **sweep over users lowers**, as a function of the users' vectors: the error of the
preferences over the contexts of the users, and the ridge on the vectors of those that have one. -/
noncomputable def usersLoss (m : Model ℝ n) (userItems : Table Key (List Key))
    (theta : Factors ℝ n) : Except Fault ℝ := do
  let error ← preferenceLoss { m with theta := theta } (userSamples (α := ℝ) userItems)
  return error + m.hyper.ridgeTheta * ((theta.present userItems.keys).map Vec.normSq).sum

/-- The error and the ridge of **one user**, as a function of the user's vector. -/
noncomputable def userError (m : Model ℝ n) (userItems : Table Key (List Key)) (u : Key)
    (x : Fin n → ℝ) : ℝ :=
  ∑ i ∈ m.beta.domain, scoreError m.hyper.unobserved m.hyper.observed
      (weightsOf (asFeatures ((userItems.get? u).getD []) 1) i) (x ⬝ᵥ m.beta.vectorAt i)
    + m.hyper.ridgeTheta * (x ⬝ᵥ x)

variable (m : Model ℝ n) (userItems : Table Key (List Key))

/-- The error of the preferences over the contexts of the users, **by user**: strangers have
none. -/
theorem preferenceLoss_userSamples (theta : Factors ℝ n) :
    preferenceLoss { m with theta := theta } (userSamples (α := ℝ) userItems)
      = .ok (∑ u ∈ theta.domain ∩ userItems.domain, ∑ i ∈ m.beta.domain,
          scoreError m.hyper.unobserved m.hyper.observed
            (weightsOf (asFeatures ((userItems.get? u).getD []) 1) i)
            (theta.vectorAt u ⬝ᵥ m.beta.vectorAt i)) := by
  let contexts : Table Key (List (Feature ℝ)) := userItems.mapValues fun _ ks => asFeatures ks 1
  have hsamples : userSamples (α := ℝ) userItems
      = contexts.entries.map fun e => Sample.user e.1 e.2 := by
    change _ = (userItems.entries.map fun e => (e.1, asFeatures e.2 (1 : ℝ))).map _
    rw [List.map_map]
    rfl
  have hcontexts : ∀ u, weightsOf contexts.entries u
      = ((userItems.get? u).map fun ks => asFeatures ks 1).toList := fun u => by
    rw [weightsOf_entries, Table.get?_mapValues]
  rw [preferenceLoss, hsamples, preferenceLoss_users, sideLoss_eq]
  refine congrArg Except.ok ?_
  have hswept : theta.domain ∩ userItems.domain ⊆ theta.domain := Finset.inter_subset_left
  rw [← Finset.sum_subset hswept]
  · refine Finset.sum_congr rfl fun u hu => ?_
    obtain ⟨ks, hks⟩ := Table.exists_get? (Table.mem_domain.1 (Finset.mem_inter.1 hu).2)
    rw [hcontexts, hks]
    exact List.sum_singleton
  · intro u hu hnot
    have hrow : userItems.get? u = none := Table.get?_eq_none_iff.2 fun hmem =>
      hnot (Finset.mem_inter.2 ⟨hu, Table.mem_domain.2 hmem⟩)
    rw [hcontexts, hrow]
    rfl

/-- The squared lengths of the vectors of the users with a row, by user. -/
theorem sum_present_users (theta : Factors ℝ n) :
    ((theta.present userItems.keys).map Vec.normSq).sum
      = ∑ u ∈ theta.domain ∩ userItems.domain, theta.vectorAt u ⬝ᵥ theta.vectorAt u := by
  have hlengths := theta.sum_present userItems.keys (fun x => x ⬝ᵥ x) (dotProduct_zero 0)
  rw [List.map_congr_left fun v _ => Vec.normSq_eq v, hlengths,
    ← List.sum_toFinset _ userItems.nodup_keys]
  refine (Finset.sum_subset Finset.inter_subset_right fun u hu hnot => ?_).symm
  rw [Factors.vectorAt_of_not_mem fun hmem =>
    hnot (Finset.mem_inter.2 ⟨Table.mem_domain.2 hmem, hu⟩), dotProduct_zero]

/-- What a sweep over users lowers is a sum over **the registered users with a row**, each with an
error of its own. -/
theorem usersLoss_eq (theta : Factors ℝ n) :
    m.usersLoss userItems theta
      = .ok (∑ u ∈ theta.domain ∩ userItems.domain,
          m.userError userItems u (theta.vectorAt u)) := by
  rw [usersLoss, preferenceLoss_userSamples, sum_present_users, Finset.mul_sum]
  exact congrArg Except.ok Finset.sum_add_distrib.symm

variable {m userItems}

/-- The **solution of the system** of one user, with the vectors of the items fixed. -/
noncomputable def solution (m : Model ℝ n) (userItems : Table Key (List Key)) (u : Key) :
    Except Fault (Vec ℝ n) :=
  newTheta ((userItems.get? u).getD []) m.beta
    (m.beta.background m.hyper.unobserved m.hyper.ridgeTheta) m.hyper.unobserved m.hyper.observed

theorem solution_eq_ok_iff {u : Key} {v : Vec ℝ n} :
    m.solution userItems u = .ok v ↔
      (observedMatrix m.beta ((userItems.get? u).getD []) m.hyper.unobserved m.hyper.observed
        m.hyper.ridgeTheta).PosDef ∧
      observedMatrix m.beta ((userItems.get? u).getD []) m.hyper.unobserved m.hyper.observed
          m.hyper.ridgeTheta *ᵥ v.coords
        = observedTarget m.beta ((userItems.get? u).getD []) m.hyper.observed :=
  newTheta_eq_ok_iff

/-- The solution of the system of a **user** is the bottom of the user's error. -/
theorem bowl_userError {u : Key} {v : Vec ℝ n} (hv : m.solution userItems u = .ok v) :
    Bowl (m.userError userItems u) v.coords := by
  obtain ⟨hpos, heq⟩ := solution_eq_ok_iff.1 hv
  exact (isQuadratic_slice m.beta _ _ _ m.hyper.ridgeTheta).bowl hpos heq

/-- Solutions of **all users' systems** are jointly the one minimum. -/
theorem uniqueMinimum_usersLoss {theta : Factors ℝ n} (hmem : theta ∈ retrained m.theta userItems)
    (hsolved : ∀ u ∈ m.theta, u ∈ userItems →
      ∃ v, m.solution userItems u = .ok v ∧ theta.get? u = some v) :
    UniqueMinimum (m.usersLoss userItems) (retrained m.theta userItems) theta := by
  refine ⟨hmem, _, m.usersLoss_eq userItems theta, fun theta' hmem' hne =>
    ⟨_, m.usersLoss_eq userItems theta', ?_⟩⟩
  rw [retrained.domain_eq hmem, retrained.domain_eq hmem']
  refine sum_lt_sum_of_bowls (fun u hu => ?_) ?_
  · obtain ⟨hu, hrow⟩ := Finset.mem_inter.1 hu
    obtain ⟨v, hv, hget⟩ := hsolved u (Table.mem_domain.1 hu) (Table.mem_domain.1 hrow)
    rw [Factors.vectorAt_of_get? hget]
    exact bowl_userError hv
  · by_contra! hsame
    exact hne (retrained.ext hmem' hmem hsame)

/-- Where all users' vectors together have one minimum, so has the error of **each user**: a table
with another vector for the user is one of those that are compared. -/
theorem userError_lt {theta : Factors ℝ n}
    (h : UniqueMinimum (m.usersLoss userItems) (retrained m.theta userItems) theta) {u : Key}
    (hu : u ∈ m.theta) (hrow : u ∈ userItems) {x : Fin n → ℝ} (hx : x ≠ theta.vectorAt u) :
    m.userError userItems u (theta.vectorAt u) < m.userError userItems u x := by
  let other : Factors ℝ n := theta.insert u (Vec.ofCoords x)
  have hvectors : other.vectorAt = Function.update theta.vectorAt u x := by
    rw [Factors.vectorAt_insert, Vec.coords_ofCoords]
  have hmem : u ∈ theta := by rwa [Table.mem_iff, h.mem.1, ← Table.mem_iff]
  have hother : other ∈ retrained m.theta userItems := by
    refine ⟨(Table.keys_insert_of_mem hmem _).trans h.mem.1, fun u' hu' => ?_⟩
    have hne : u' ≠ u := fun heq => hu' (heq ▸ hrow)
    exact (Table.get?_insert_of_ne _ hne _).trans (h.mem.2 u' hu')
  have hne : other ≠ theta := fun heq => hx <| by
    rw [← heq, hvectors, Function.update_self]
  have hlt := h.lt_of_eq_ok (m.usersLoss_eq userItems theta) hother hne
    (m.usersLoss_eq userItems other)
  have hswept : u ∈ m.theta.domain ∩ userItems.domain :=
    Finset.mem_inter.2 ⟨Table.mem_domain.2 hu, Table.mem_domain.2 hrow⟩
  have hrest : ∀ u' ∈ (m.theta.domain ∩ userItems.domain).erase u,
      m.userError userItems u' (other.vectorAt u') = m.userError userItems u' (theta.vectorAt u') :=
    fun u' hu' => by rw [hvectors, Function.update_of_ne (Finset.ne_of_mem_erase hu')]
  rw [retrained.domain_eq h.mem, retrained.domain_eq hother, ← Finset.add_sum_erase _ _ hswept,
    ← Finset.add_sum_erase _ _ hswept, Finset.sum_congr rfl hrest, hvectors,
    Function.update_self] at hlt
  exact lt_of_add_lt_add_right hlt

/-! ### The sweep -/

/-- A model that is `m` with the **solutions of the listed users** in place, as far as they are
registered. -/
structure Solved (m : Model ℝ n) (userItems : Table Key (List Key)) (us : List Key)
    (m' : Model ℝ n) : Prop where
  hyper : m'.hyper = m.hyper
  beta : m'.beta = m.beta
  keys : m'.theta.keys = m.theta.keys
  get : ∀ u ∈ m.theta, u ∈ us → ∃ v, m.solution userItems u = .ok v ∧ m'.theta.get? u = some v

namespace Solved

variable {us : List Key} {m' : Model ℝ n}

theorem mem_iff (h : Solved m userItems us m') {u : Key} : u ∈ m'.theta ↔ u ∈ m.theta := by
  rw [Table.mem_iff, h.keys, Table.mem_iff]

/-- The system that is solved **at a row** is that of its user. -/
theorem newTheta_eq (h : Solved m userItems us m') {row : Key × List Key}
    (hrow : row ∈ userItems.entries) :
    newTheta row.2 m'.beta (m.beta.background m.hyper.unobserved m.hyper.ridgeTheta)
      m'.hyper.unobserved m'.hyper.observed = m.solution userItems row.1 := by
  rw [solution, Table.get?_of_mem_entries hrow, h.beta, h.hyper, Option.getD_some]

/-- A **row** that goes through puts the solution of its own user in place. -/
theorem step (h : Solved m userItems us m') {row : Key × List Key}
    (hrow : row ∈ userItems.entries)
    (hdone : (sweepUser (m.beta.background m.hyper.unobserved m.hyper.ridgeTheta) m' row).fault
      = none) :
    Solved m userItems (us ++ [row.1])
      (sweepUser (m.beta.background m.hyper.unobserved m.hyper.ridgeTheta) m' row).state := by
  rcases sweepUser_cases (m.beta.background m.hyper.unobserved m.hyper.ridgeTheta) m' row with
    ⟨hnot, hstep⟩ | ⟨hmem, c, ⟨v, hv, hstep⟩ | ⟨f, -, hstep⟩⟩
  · rw [hstep]
    refine ⟨h.hyper, h.beta, h.keys, fun u hu hlist => h.get u hu ?_⟩
    refine (List.mem_append.1 hlist).resolve_right fun hlast => hnot (h.mem_iff.2 ?_)
    rwa [← List.mem_singleton.1 hlast]
  · rw [hstep]
    rw [h.newTheta_eq hrow] at hv
    refine ⟨h.hyper, h.beta, (Table.keys_insert_of_mem hmem v).trans h.keys, fun u hu hlist => ?_⟩
    by_cases hlast : u = row.1
    · exact ⟨v, hlast ▸ hv, by rw [hlast]; exact Table.get?_insert_self _ _ _⟩
    · obtain ⟨w, hw, hget⟩ := h.get u hu
        ((List.mem_append.1 hlist).resolve_right fun hu => hlast (List.mem_singleton.1 hu))
      exact ⟨w, hw, (Table.get?_insert_of_ne _ hlast v).trans hget⟩
  · rw [hstep] at hdone
    cases hdone

end Solved

/-- The rows of a sweep over users that goes through put the **solutions of all its users** in
place. -/
theorem solved_sweepUsers (hf : (m.sweepUsers userItems).fault = none) :
    Solved m userItems userItems.keys (m.sweepUsers userItems).state :=
  Outcome.each_prefix (fun past m' => Solved m userItems (past.map Prod.fst) m')
    ⟨rfl, rfl, rfl, fun u _ hu => absurd hu List.not_mem_nil⟩ hf
    fun past row m' hrow hpast hdone => by
      rw [List.map_append]
      exact hpast.step hrow hdone

/-- A sweep over users goes through exactly if **every system** that it comes to is positive
definite. -/
theorem updateUsers_fault_eq_none_iff :
    (m.updateUsers userItems).fault = none ↔ ∀ u ∈ m.theta, u ∈ userItems →
      (observedMatrix m.beta ((userItems.get? u).getD []) m.hyper.unobserved m.hyper.observed
        m.hyper.ridgeTheta).PosDef := by
  rw [updateUsers_eq]
  constructor
  · intro hf u hu hrow
    obtain ⟨v, hv, -⟩ := (solved_sweepUsers (Outcome.bind_done_iff.1 hf).1).get u hu hrow
    exact (solution_eq_ok_iff.1 hv).1
  · intro hpos
    have hsolution : ∀ u ∈ m.theta, u ∈ userItems → ∃ v, m.solution userItems u = .ok v := by
      intro u hu hrow
      obtain ⟨v, hv⟩ := exists_mulVec_eq (hpos u hu hrow)
        (observedTarget m.beta ((userItems.get? u).getD []) m.hyper.observed)
      exact ⟨v, solution_eq_ok_iff.2 ⟨hpos u hu hrow, hv⟩⟩
    refine Outcome.bind_done_iff.2 ⟨?_, rfl⟩
    -- what the rows have put in place so far does not matter, only that they have kept the rest
    refine (Outcome.each_done (Solved m userItems []) ⟨rfl, rfl, rfl, fun u _ hu =>
      absurd hu List.not_mem_nil⟩ fun m' row hrow h => ?_).1
    have hdone : (sweepUser (m.beta.background m.hyper.unobserved m.hyper.ridgeTheta) m' row).fault
        = none := by
      rcases sweepUser_cases (m.beta.background m.hyper.unobserved m.hyper.ridgeTheta) m' row with
        ⟨-, hstep⟩ | ⟨hmem, c, ⟨v, -, hstep⟩ | ⟨f, hf, -⟩⟩
      · rw [hstep]
        rfl
      · rw [hstep]
        rfl
      · obtain ⟨v, hv⟩ := hsolution row.1 (h.mem_iff.1 hmem) (List.mem_map_of_mem hrow)
        rw [h.newTheta_eq hrow, hv] at hf
        cases hf
    have hnext := h.step hrow hdone
    exact ⟨hdone, hnext.hyper, hnext.beta, hnext.keys, fun u _ hu => absurd hu List.not_mem_nil⟩

/-- A sweep over users that goes through puts **the one minimum** in place and changes no other
parameter. -/
theorem uniqueMinimum_updateUsers (hf : (m.updateUsers userItems).fault = none) :
    let m' := (m.updateUsers userItems).state
    m' = { m with theta := m'.theta, counters := m'.counters } ∧
      UniqueMinimum (m.usersLoss userItems) (retrained m.theta userItems) m'.theta := by
  rw [updateUsers_eq] at hf ⊢
  obtain ⟨hrows, -⟩ := Outcome.bind_done_iff.1 hf
  rw [Outcome.bind_of_done hrows]
  have hwrites := writesUsers_sweepUsers hrows
  have hsolved := solved_sweepUsers hrows
  intro m'
  exact ⟨congrArg (fun x : Model ℝ n => { x with counters := m'.counters }) hwrites.rest,
    uniqueMinimum_usersLoss ⟨hsolved.keys, hwrites.theta⟩ hsolved.get⟩

/-- A sweep over users goes through **where there is** one minimum. -/
theorem updateUsers_done_of_uniqueMinimum {theta : Factors ℝ n}
    (h : UniqueMinimum (m.usersLoss userItems) (retrained m.theta userItems) theta) :
    (m.updateUsers userItems).fault = none := by
  refine updateUsers_fault_eq_none_iff.2 fun u hu hrow => ?_
  exact (isQuadratic_slice m.beta _ _ _ m.hyper.ridgeTheta).posDef_of_lt
    (isSymm_observedMatrix _ _ _ _ _) fun x hx => userError_lt h hu hrow hx

end Model

/-- **A sweep over users minimises jointly**: whatever the parameters are and whoever is listed, a
sweep goes through exactly if the vectors of the registered users with a row have one minimum
together, among all that they might have, of the error of the preferences and the ridge. It then
puts that minimum in place and changes no other parameter. -/
theorem updateUsers_is_joint_minimum (m : Model ℝ n) (userItems : Table Key (List Key)) :
    let updated := m.updateUsers userItems
    (updated.fault = none ↔ ∃ theta,
        UniqueMinimum (m.usersLoss userItems) (retrained m.theta userItems) theta) ∧
      (updated.fault = none →
        updated.state
            = { m with theta := updated.state.theta, counters := updated.state.counters } ∧
          UniqueMinimum (m.usersLoss userItems) (retrained m.theta userItems)
            updated.state.theta) := by
  refine ⟨⟨fun hf => ?_, fun h => ?_⟩, fun hf => Model.uniqueMinimum_updateUsers hf⟩
  · exact ⟨_, (Model.uniqueMinimum_updateUsers hf).2⟩
  · obtain ⟨theta, htheta⟩ := h
    exact Model.updateUsers_done_of_uniqueMinimum htheta

/-- An item is listed twice for one user and not at all for another, and both a **user and an item**
are listed that nobody has registered. -/
theorem updateUsers_is_joint_minimum_repeated :
    let userItems : Table Key (List Key) := Table.ofList [(.text "ghost", [.text "a"]),
      (.text "u", [.text "a", .text "nobody", .text "a"]), (.text "v", [])]
    let m : Model ℝ 1 :=
      { (Model.empty { Hyper.distrustful with observed := 2 } 0 ⟨0, 0⟩ : Model ℝ 1) with
        theta := Table.ofList [(.text "u", #v[1]), (.text "v", #v[1]), (.text "w", #v[1])]
        beta := Table.ofList [(.text "a", #v[1])] }
    (m.updateUsers userItems).fault = none ∧
      UniqueMinimum (m.usersLoss userItems) (retrained m.theta userItems)
        (m.updateUsers userItems).state.theta := by
  intro userItems m
  have hdone : (m.updateUsers userItems).fault = none :=
    Model.updateUsers_fault_eq_none_iff.2 fun u _ _ =>
      posDef_observedMatrix_of_le m.beta _ zero_le_one one_le_two zero_lt_one
  exact ⟨hdone, ((updateUsers_is_joint_minimum m userItems).2 hdone).2⟩

end CoEmbed
