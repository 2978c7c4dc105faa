import CoEmbed.Proofs.Exact.Update
import CoEmbed.Proofs.Run

/-!
# Every System has a Solution

With positive ridges every system of a sweep is positive definite, whatever the parameters are,
so no sweep is ever aborted. The confidence of an observed pair may be smaller than that of the
others: the correction is then negative, but it only turns one confidence into the other.

* `Hyper.Positive` — the confidences are not negative, and the ridges are positive.
* `posDef_thetaSystem`, `posDef_betaSystem`, `posDef_gammaSystem` — the systems.
* `Model.updateUsers_done`, `Model.updateItems_done` — a sweep goes through.
* `Sweep`, `Model.perform`, `Model.swept` — sweeps as commands, and what a sequence of them leaves.
* `systems_posDef` — every system that any sequence of sweeps comes to.

## List convention

The lists of items and of users that a sweep is given have no repeated key. Nothing is asked of
the rows of weighted neighbours, and keys without a vector may be listed anywhere.
-/

open Matrix

namespace CoEmbed

variable {n : ℕ}

/-- Confidences that are **not negative**, and ridges that are positive. -/
structure Hyper.Positive (h : Hyper ℝ) : Prop where
  unobserved : 0 ≤ h.unobserved
  observed : 0 ≤ h.observed
  ridgeTheta : 0 < h.ridgeTheta
  ridgeBeta : 0 < h.ridgeBeta
  ridgeGamma : 0 < h.ridgeGamma

/-- No list of a table has a **repeated key**. -/
def Table.Distinct (t : Table Key (List Key)) : Prop := ∀ e ∈ t.entries, e.2.Nodup

instance (t : Table Key (List Key)) : Decidable t.Distinct :=
  inferInstanceAs (Decidable (∀ e ∈ t.entries, e.2.Nodup))

/-! ### The systems -/

/-- The system of a **user** is positive definite. -/
theorem posDef_thetaSystem {h : Hyper ℝ} (hpos : h.Positive) (beta : Factors ℝ n)
    {rated : List Key} (hrated : rated.Nodup) :
    (thetaSystem (beta.background h.unobserved h.ridgeTheta) beta rated h.unobserved
      h.observed).toMatrix.PosDef := by
  rw [toMatrix_thetaSystem]
  exact posDef_observedMatrix beta hrated hpos.unobserved hpos.observed hpos.ridgeTheta

/-- The system of an **item** is positive definite. -/
theorem posDef_betaSystem {h : Hyper ℝ} (hpos : h.Positive) (theta gamma : Factors ℝ n)
    {raters : List Key} (hraters : raters.Nodup) (row : Row ℝ) :
    (betaSystem (theta.background h.unobserved h.ridgeBeta) theta gamma raters row h.unobserved
      h.observed).toMatrix.PosDef := by
  rw [toMatrix_betaSystem]
  exact (posDef_observedMatrix theta hraters hpos.unobserved hpos.observed
    hpos.ridgeBeta).add_posSemidef (posSemidef_rowMatrix gamma row)

/-- The system of an item **as a neighbour** is positive definite. -/
theorem posDef_gammaSystem {h : Hyper ℝ} (hpos : h.Positive) (beta : Factors ℝ n)
    (row : Row ℝ) : (gammaSystem beta row h.ridgeGamma).toMatrix.PosDef := by
  rw [toMatrix_gammaSystem]
  exact PosDef.posSemidef_add (posSemidef_rowMatrix beta row) (posDef_ridge hpos.ridgeGamma)

/-! ### The steps -/

namespace Model

variable {m : Model ℝ n}

/-- The step at a **user** goes through and leaves the items' vectors alone. -/
theorem sweepUser_done (hpos : m.hyper.Positive) {e : Key × List Key} (he : e.2.Nodup) :
    let o := sweepUser (m.beta.background m.hyper.unobserved m.hyper.ridgeTheta) m e
    o.fault = none ∧ o.state.hyper = m.hyper ∧ o.state.beta = m.beta := by
  rcases sweepUser_cases (m.beta.background m.hyper.unobserved m.hyper.ridgeTheta) m e with
    ⟨-, hstep⟩ | ⟨-, c, ⟨v, -, hstep⟩ | ⟨f, hf, -⟩⟩
  · rw [hstep]
    exact ⟨rfl, rfl, rfl⟩
  · rw [hstep]
    exact ⟨rfl, rfl, rfl⟩
  · have hA := posDef_thetaSystem hpos m.beta he
    rw [toMatrix_thetaSystem] at hA
    obtain ⟨v, hv⟩ := exists_mulVec_eq hA (observedTarget m.beta e.2 m.hyper.observed)
    rw [newTheta_eq_ok_iff.2 ⟨hA, hv⟩] at hf
    cases hf

/-- The steps at a **list of users** go through and leave the items' vectors alone. -/
theorem sweepUsers_done (hpos : m.hyper.Positive) {es : List (Key × List Key)}
    (hd : ∀ e ∈ es, e.2.Nodup) :
    let o := Outcome.each
      (sweepUser (m.beta.background m.hyper.unobserved m.hyper.ridgeTheta)) m es
    o.fault = none ∧ o.state.hyper = m.hyper ∧ o.state.beta = m.beta := by
  refine Outcome.each_done (fun m' : Model ℝ n => m'.hyper = m.hyper ∧ m'.beta = m.beta)
    ⟨rfl, rfl⟩ ?_
  rintro m' e he ⟨hhyper, hbeta⟩
  rw [← hhyper, ← hbeta]
  exact sweepUser_done (hhyper ▸ hpos) (hd e he)

/-- A **sweep over users** goes through. -/
theorem updateUsers_done (hpos : m.hyper.Positive) {userItems : Table Key (List Key)}
    (hd : userItems.Distinct) :
    (m.updateUsers userItems).fault = none ∧ (m.updateUsers userItems).state.hyper = m.hyper := by
  obtain ⟨hf, hhyper, -⟩ := sweepUsers_done hpos hd
  rw [updateUsers, Outcome.bind_of_done hf]
  exact ⟨rfl, hhyper⟩

/-- A step that **goes through** and leaves the hyperparameters and the users' vectors alone. -/
structure Passes (m : Model ℝ n) (o : Outcome (Model ℝ n)) : Prop where
  done : o.fault = none
  hyper : o.state.hyper = m.hyper
  theta : o.state.theta = m.theta

/-- Two such steps one after the other are one. -/
theorem Passes.bind {o : Outcome (Model ℝ n)} {f : Model ℝ n → Outcome (Model ℝ n)}
    (h : m.Passes o) (h' : o.state.Passes (f o.state)) : m.Passes (o.bind f) := by
  rw [Outcome.bind_of_done h.done]
  exact ⟨h'.done, h'.hyper.trans h.hyper, h'.theta.trans h.theta⟩

/-- The update of the vector of an **item** goes through. -/
theorem updateBeta_passes (hpos : m.hyper.Positive) (i : Key) {raters : List Key}
    (hraters : raters.Nodup) (row : Row ℝ) :
    m.Passes (updateBeta (m.theta.background m.hyper.unobserved m.hyper.ridgeBeta) m i raters
      row) := by
  rcases updateBeta_cases (m.theta.background m.hyper.unobserved m.hyper.ridgeBeta) m i raters
    row with ⟨v, -, hstep⟩ | ⟨f, hf, -⟩
  · rw [hstep]
    exact ⟨rfl, rfl, rfl⟩
  · have hA := posDef_betaSystem hpos m.theta m.gamma hraters row
    rw [toMatrix_betaSystem] at hA
    obtain ⟨v, hv⟩ := exists_mulVec_eq hA (observedTarget m.theta raters m.hyper.observed
      + rowTarget m.gamma row (restOf m.seenBetaBias m.seenGammaBias m.globalBias i))
    rw [newBeta_eq_ok_iff.2 ⟨hA, hv⟩] at hf
    cases hf

/-- The update of the vector of an item **as a neighbour** goes through. -/
theorem updateGamma_passes (hpos : m.hyper.Positive) (i : Key) (row : Row ℝ) :
    m.Passes (updateGamma m i row) := by
  rcases updateGamma_cases m i row with ⟨v, -, hstep⟩ | ⟨-, hstep⟩ | ⟨f, hf, -⟩
  · rw [hstep]
    exact ⟨rfl, rfl, rfl⟩
  · rw [hstep]
    exact ⟨rfl, rfl, rfl⟩
  · by_cases hn : HasNeighbor m.beta row
    · have hA := posDef_gammaSystem hpos m.beta row
      rw [toMatrix_gammaSystem] at hA
      obtain ⟨v, hv⟩ := exists_mulVec_eq hA
        (rowTarget m.beta row (restOf m.seenGammaBias m.seenBetaBias m.globalBias i))
      rw [(newGamma_eq_ok_iff hn).2 ⟨v, rfl, hA, hv⟩] at hf
      cases hf
    · rw [newGamma_of_not_hasNeighbor hn] at hf
      cases hf

/-- The update of the **two biases** of an item goes through: means are always there. -/
theorem updateBiases_passes (m : Model ℝ n) (i : Key) (row : Row ℝ) :
    m.Passes (updateBiases m i row) := by
  rcases updateBiases_cases m i row with
    ⟨o, o', -, -, hstep⟩ | ⟨f, hf, -⟩ | ⟨o, f, -, hf, -⟩
  · rw [hstep]
    exact ⟨rfl, by cases o <;> cases o' <;> rfl, by cases o <;> cases o' <;> rfl⟩
  · rw [newBias_eq] at hf
    cases hf
  · rw [newBias_eq] at hf
    cases hf

/-- The step at an **item** goes through. -/
theorem sweepItem_passes (hpos : m.hyper.Positive) {e : Key × List Key} (he : e.2.Nodup)
    (rows : Table Key (Row ℝ)) :
    m.Passes (sweepItem (m.theta.background m.hyper.unobserved m.hyper.ridgeBeta) rows m e) := by
  rcases sweepItem_cases (m.theta.background m.hyper.unobserved m.hyper.ridgeBeta) rows m e with
    ⟨-, hstep⟩ | ⟨-, c, hstep⟩
  · rw [hstep]
    exact ⟨rfl, rfl, rfl⟩
  · have hbeta := updateBeta_passes (m := m.withCounters c) hpos e.1 he
      ((rows.get? e.1).getD [])
    have hgamma := updateGamma_passes (hbeta.hyper ▸ hpos) e.1 ((rows.get? e.1).getD [])
    have hvectors := Passes.bind (f := fun m' => updateGamma m' e.1
      ((rows.get? e.1).getD [])) hbeta hgamma
    have hall := Passes.bind (f := fun m' => if m'.hyper.useBias then
      updateBiases m' e.1 ((rows.get? e.1).getD []) else .done m') hvectors (by
        split
        · exact updateBiases_passes _ e.1 ((rows.get? e.1).getD [])
        · exact ⟨rfl, rfl, rfl⟩)
    rw [hstep]
    exact ⟨hall.done, hall.hyper, hall.theta⟩

/-- The steps at a **list of items** go through. -/
theorem sweepItems_passes (hpos : m.hyper.Positive) {es : List (Key × List Key)}
    (hd : ∀ e ∈ es, e.2.Nodup) (rows : Table Key (Row ℝ)) :
    m.Passes (Outcome.each
      (sweepItem (m.theta.background m.hyper.unobserved m.hyper.ridgeBeta) rows) m es) := by
  let o := Outcome.each
    (sweepItem (m.theta.background m.hyper.unobserved m.hyper.ridgeBeta) rows) m es
  have hall : o.fault = none ∧ o.state.hyper = m.hyper ∧ o.state.theta = m.theta := by
    refine Outcome.each_done (fun m' : Model ℝ n => m'.hyper = m.hyper ∧ m'.theta = m.theta)
      ⟨rfl, rfl⟩ ?_
    rintro m' e he ⟨hhyper, htheta⟩
    rw [← hhyper, ← htheta]
    have hstep := sweepItem_passes (hhyper ▸ hpos) (hd e he) rows
    exact ⟨hstep.done, hstep.hyper, hstep.theta⟩
  obtain ⟨hf, hhyper, htheta⟩ := hall
  exact ⟨hf, hhyper, htheta⟩

/-- The update of the **global bias** goes through. -/
theorem updateGlobal_done (m : Model ℝ n) (items : List Key) (rows : Table Key (Row ℝ)) :
    (updateGlobal m items rows).fault = none ∧
      (updateGlobal m items rows).state.hyper = m.hyper := by
  by_cases hup : m.hyper.updateGlobalBias = true
  · rcases updateGlobal_cases m items rows hup with ⟨b, -, hstep⟩ | ⟨-, hstep⟩ | ⟨f, hf, -⟩
    · rw [hstep]
      exact ⟨rfl, rfl⟩
    · rw [hstep]
      exact ⟨rfl, rfl⟩
    · rw [newGlobalBias_eq] at hf
      cases hf
  · rw [updateGlobal, if_neg hup]
    exact ⟨rfl, rfl⟩

/-- A **sweep over items** goes through. -/
theorem updateItems_done (hpos : m.hyper.Positive) {itemUsers : Table Key (List Key)}
    (hd : itemUsers.Distinct) (rows : Table Key (Row ℝ)) :
    (m.updateItems itemUsers rows).fault = none ∧
      (m.updateItems itemUsers rows).state.hyper = m.hyper := by
  have hsweep := sweepItems_passes hpos hd rows
  have hglobal := updateGlobal_done
    (Outcome.each (sweepItem (m.theta.background m.hyper.unobserved m.hyper.ridgeBeta) rows) m
      itemUsers.entries).state itemUsers.keys rows
  rw [updateItems, Outcome.bind_of_done hsweep.done, Outcome.bind_of_done hglobal.1]
  exact ⟨rfl, hglobal.2.trans hsweep.hyper⟩

end Model

/-! ### Sequences of sweeps -/

/-- A **sweep** over some tables. -/
inductive Sweep where
  | users (userItems : Table Key (List Key))
  | items (itemUsers : Table Key (List Key)) (rows : Table Key (Row ℝ))

/-- No list that the sweep is given has a repeated key. -/
def Sweep.Distinct : Sweep → Prop
  | users userItems => userItems.Distinct
  | items itemUsers _ => itemUsers.Distinct

namespace Model

/-- **Performs** a sweep. -/
noncomputable def perform (m : Model ℝ n) : Sweep → Outcome (Model ℝ n)
  | .users userItems => m.updateUsers userItems
  | .items itemUsers rows => m.updateItems itemUsers rows

/-- The model **after some sweeps**; one that is aborted leaves behind what it has done, and the
next one goes on from there. -/
noncomputable def swept (m : Model ℝ n) (sweeps : List Sweep) : Model ℝ n :=
  sweeps.foldl (fun m s => (m.perform s).state) m

/-- Sweeps that do the same **seen through a function** do so one after the other. -/
theorem swept_map {f : Model ℝ n → Model ℝ n} {g : Sweep → Sweep}
    (h : ∀ m s, ((f m).perform (g s)).state = f (m.perform s).state) (m : Model ℝ n)
    (sweeps : List Sweep) : (f m).swept (sweeps.map g) = f (m.swept sweeps) := by
  induction sweeps generalizing m with
  | nil => rfl
  | cons s sweeps ih =>
      rw [swept, List.map_cons, List.foldl_cons, h]
      exact ih (m.perform s).state

/-- A **sequence of sweeps** goes through. -/
theorem perform_done {m : Model ℝ n} (hpos : m.hyper.Positive) {sweeps : List Sweep}
    (hd : ∀ s ∈ sweeps, s.Distinct) : (Outcome.each perform m sweeps).fault = none := by
  refine (Outcome.each_done (fun m' => m'.hyper = m.hyper) rfl fun m' s hs hhyper => ?_).1
  rw [← hhyper] at hpos ⊢
  cases s with
  | users userItems => exact updateUsers_done hpos (hd _ hs)
  | items itemUsers rows => exact updateItems_done hpos (hd _ hs) rows

end Model

/-- **No sweep is ever aborted**: from any parameters, every system that a sweep comes to is
positive definite, the sweep goes through, and so does any sequence of sweeps. -/
theorem systems_posDef (m : Model ℝ n) (hpos : m.hyper.Positive) :
    (∀ userItems : Table Key (List Key), userItems.Distinct →
      let background := m.beta.background m.hyper.unobserved m.hyper.ridgeTheta
      (∀ past row rest, userItems.entries = past ++ row :: rest →
        let s := (Outcome.each (Model.sweepUser background) m past).state
        (thetaSystem background s.beta row.2 s.hyper.unobserved
          s.hyper.observed).toMatrix.PosDef) ∧
      (m.updateUsers userItems).fault = none) ∧
    (∀ (itemUsers : Table Key (List Key)) (rows : Table Key (Row ℝ)), itemUsers.Distinct →
      let background := m.theta.background m.hyper.unobserved m.hyper.ridgeBeta
      (∀ past row rest, itemUsers.entries = past ++ row :: rest →
        let s := (Outcome.each (Model.sweepItem background rows) m past).state
        let neighbors := (rows.get? row.1).getD []
        let s' := (Model.updateBeta background s row.1 row.2 neighbors).state
        (betaSystem background s.theta s.gamma row.2 neighbors s.hyper.unobserved
          s.hyper.observed).toMatrix.PosDef ∧
        (gammaSystem s'.beta neighbors s'.hyper.ridgeGamma).toMatrix.PosDef) ∧
      (m.updateItems itemUsers rows).fault = none) ∧
    ∀ sweeps : List Sweep, (∀ s ∈ sweeps, s.Distinct) →
      (Outcome.each Model.perform m sweeps).fault = none := by
  refine ⟨fun userItems hd => ⟨fun past row rest hrows => ?_, (Model.updateUsers_done hpos hd).1⟩,
    fun itemUsers rows hd => ⟨fun past row rest hrows => ?_,
      (Model.updateItems_done hpos hd rows).1⟩, fun sweeps hd => Model.perform_done hpos hd⟩
  · have hrow : ∀ e ∈ past ++ row :: rest, e.2.Nodup := hrows ▸ hd
    intro s
    obtain ⟨-, hhyper, hbeta⟩ : _ ∧ s.hyper = m.hyper ∧ s.beta = m.beta :=
      Model.sweepUsers_done hpos fun e he => hrow e (List.mem_append_left _ he)
    rw [hhyper, hbeta]
    exact posDef_thetaSystem hpos m.beta (hrow row (List.mem_append_right past List.mem_cons_self))
  · have hrow : ∀ e ∈ past ++ row :: rest, e.2.Nodup := hrows ▸ hd
    have hraters := hrow row (List.mem_append_right past List.mem_cons_self)
    intro s neighbors s'
    have hpast : m.Passes ⟨s, none⟩ :=
      have h := Model.sweepItems_passes hpos (fun e he => hrow e (List.mem_append_left _ he)) rows
      ⟨rfl, h.hyper, h.theta⟩
    have hbeta : s'.hyper = s.hyper := by
      rcases Model.updateBeta_cases (m.theta.background m.hyper.unobserved m.hyper.ridgeBeta) s
        row.1 row.2 neighbors with ⟨v, -, hstep⟩ | ⟨f, -, hstep⟩
      · exact congrArg (fun o => o.state.hyper) hstep
      · exact congrArg (fun o => o.state.hyper) hstep
    have hhyper : s.hyper = m.hyper := hpast.hyper
    have htheta : s.theta = m.theta := hpast.theta
    rw [hbeta, hhyper, htheta]
    exact ⟨posDef_betaSystem hpos m.theta s.gamma hraters neighbors,
      posDef_gammaSystem hpos s'.beta neighbors⟩

/-- The hyperparameters of a model that trusts **no observation**. -/
def Hyper.distrustful : Hyper ℝ where
  unobserved := 1
  observed := 0
  ridgeTheta := 1
  ridgeBeta := 1
  ridgeGamma := 1
  init := ⟨.gaussian, 1, 1, 1⟩
  metric := .auc
  negatives := 1
  useBias := true
  updateGlobalBias := true

/-- No observation is trusted, a user is not registered, and a neighbour is listed twice: still
both sweeps go through, one after the other as often as one likes. -/
theorem systems_posDef_distrustful :
    let i := Key.text "i"
    let userItems := Table.ofList [(Key.text "u", [i]), (Key.text "v", [i])]
    let itemUsers := Table.ofList [(i, [Key.text "u", Key.text "v"])]
    let rows := Table.ofList [(i, [(i, (2 : ℝ)), (i, 3)])]
    let m : Model ℝ 1 :=
      { (Model.empty Hyper.distrustful 0 ⟨0, 0⟩ : Model ℝ 1) with
        theta := Table.ofList [(Key.text "u", #v[1])]
        beta := Table.ofList [(i, #v[1])]
        gamma := Table.ofList [(i, #v[1])] }
    m.hyper.Positive ∧ userItems.Distinct ∧ itemUsers.Distinct ∧
      (m.updateUsers userItems).fault = none ∧ (m.updateItems itemUsers rows).fault = none ∧
      (Outcome.each Model.perform m [.users userItems, .items itemUsers rows,
        .users userItems]).fault = none := by
  intro i userItems itemUsers rows m
  have hpos : m.hyper.Positive :=
    ⟨zero_le_one, le_rfl, zero_lt_one, zero_lt_one, zero_lt_one⟩
  have hu : userItems.Distinct := by decide
  have hi : itemUsers.Distinct := by decide
  obtain ⟨husers, hitems, hall⟩ := systems_posDef m hpos
  refine ⟨hpos, hu, hi, (husers userItems hu).2, (hitems itemUsers rows hi).2, hall _ ?_⟩
  intro s hs
  rcases List.mem_cons.1 hs with rfl | hs
  · exact hu
  · rcases List.mem_cons.1 hs with rfl | hs
    · exact hi
    · rw [List.mem_singleton.1 hs]
      exact hu

end CoEmbed
