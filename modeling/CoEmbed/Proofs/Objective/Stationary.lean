import CoEmbed.Proofs.Exact.Solvable
import CoEmbed.Proofs.Objective.Descent

/-!
# Fixed Points of Training

An iteration leaves every parameter unchanged exactly where the loss is stationary along every
parameter that the iteration fits, and lowers the loss everywhere else.

* `Model.lossAt` — the loss on the training data, as a number.
* `Model.SameParameters` — two models have the same parameters.
* `Model.Stationary` — the partial derivatives of the loss vanish.
* `Model.sameParameters_iff` — models with the same keys agree if their points do.
* `sameParameters_iterate_iff_stationary` — the fixed points of an iteration.

## Bias convention

A bias that was put in place by hand may be a whole number. Two biases are the same if their
scalars are.
-/

namespace CoEmbed

variable {n : ℕ}

/-! ### Tables of values -/

/-- The biases of a table as **scalars**. -/
noncomputable def scalars (t : Table Key (Bias ℝ)) : Table Key ℝ :=
  t.mapValues fun _ b => b.scalar

/-- Tables of biases with the same keys have the same scalars if **each key** has. -/
theorem scalars_eq_iff {t u : Table Key (Bias ℝ)} (hk : t.keys = u.keys) :
    scalars t = scalars u ↔ biasAt t = biasAt u := by
  have hat : ∀ (w : Table Key (Bias ℝ)) (k : Key), biasAt w k = ((scalars w).get? k).getD 0 := by
    intro w k
    rw [biasAt, biasOf, scalars, Table.get?_mapValues]
    cases w.get? k <;> rfl
  constructor
  · intro h
    funext k
    rw [hat, hat, h]
  · intro h
    refine Table.ext_get? (by rw [scalars, scalars, Table.keys_mapValues, Table.keys_mapValues, hk])
      fun k hkt => ?_
    rw [Table.mem_iff, scalars, Table.keys_mapValues, ← Table.mem_iff] at hkt
    have hku : k ∈ u := by rwa [Table.mem_iff, ← hk, ← Table.mem_iff]
    obtain ⟨b, hb⟩ := Table.exists_get? hkt
    obtain ⟨c, hc⟩ := Table.exists_get? hku
    have hbc := congrFun h k
    rw [biasAt, biasAt, biasOf, biasOf, hb, hc] at hbc
    rw [scalars, scalars, Table.get?_mapValues, Table.get?_mapValues, hb, hc]
    exact congrArg some hbc

/-- Tables of vectors with the same keys are the same if **each key** has the same vector. -/
theorem Factors.eq_iff {W V : Factors ℝ n} (hk : W.keys = V.keys) :
    W = V ↔ W.vectorAt = V.vectorAt := by
  constructor
  · rintro rfl
    rfl
  · intro h
    refine Table.ext_get? hk fun k hkW => ?_
    have hkV : k ∈ V := by rwa [Table.mem_iff, ← hk, ← Table.mem_iff]
    obtain ⟨v, hv⟩ := Table.exists_get? hkW
    obtain ⟨w, hw⟩ := Table.exists_get? hkV
    have hvw := congrFun h k
    rw [vectorAt_of_get? hv, vectorAt_of_get? hw] at hvw
    rw [hv, hw, Vec.coords_injective hvw]

namespace Model

/-! ### Parameters and their loss -/

/-- The **loss on the training data**, as a number; zero if there is none. -/
noncomputable def lossAt (m : Model ℝ n) (t : Training ℝ) : ℝ :=
  match m.loss t.samples with
  | .ok x => x
  | .error _ => 0

/-- A model that covers its tables has a loss, and it is the objective. -/
theorem lossAt_eq {m : Model ℝ n} {t : Training ℝ} (hm : m.Covers t) :
    m.lossAt t = t.objective m.hyper m.point := by
  rw [lossAt, loss_eq m hm]

/-- Two models with the **same parameters**. -/
structure SameParameters (m m' : Model ℝ n) : Prop where
  theta : m'.theta = m.theta
  beta : m'.beta = m.beta
  gamma : m'.gamma = m.gamma
  betaBias : scalars m'.betaBias = scalars m.betaBias
  gammaBias : scalars m'.gammaBias = scalars m.gammaBias
  globalBias : m'.globalBias = m.globalBias

/-- Models with the same keys have the same parameters exactly if they have the **same point**. -/
theorem sameParameters_iff {m m' : Model ℝ n} (h : m.Frame m') :
    m.SameParameters m' ↔ m'.point = m.point := by
  constructor
  · intro hs
    refine Point.ext ?_ ?_ ?_ ?_ ?_ hs.globalBias
    · exact (Factors.eq_iff h.theta).1 hs.theta
    · exact (Factors.eq_iff h.beta).1 hs.beta
    · exact (Factors.eq_iff h.gamma).1 hs.gamma
    · exact (scalars_eq_iff h.betaBias).1 hs.betaBias
    · exact (scalars_eq_iff h.gammaBias).1 hs.gammaBias
  · intro hp
    refine ⟨?_, ?_, ?_, ?_, ?_, congrArg Point.globalBias hp⟩
    · exact (Factors.eq_iff h.theta).2 (congrArg Point.theta hp)
    · exact (Factors.eq_iff h.beta).2 (congrArg Point.beta hp)
    · exact (Factors.eq_iff h.gamma).2 (congrArg Point.gamma hp)
    · exact (scalars_eq_iff h.betaBias).2 (congrArg Point.betaBias hp)
    · exact (scalars_eq_iff h.gammaBias).2 (congrArg Point.gammaBias hp)

/-- The **partial derivatives** of the loss vanish along the vector of every user, the vector of
every item, and, for an item with a neighbour, along its vector as a neighbour and along its
biases, if the model has any; and along the global bias, if the model learns it and there is
anything to fit. -/
structure Stationary (m : Model ℝ n) (t : Training ℝ) : Prop where
  theta : ∀ u ∈ t.userItems, HasFDerivAt (fun x => (m.setTheta u (Vec.ofCoords x)).lossAt t)
    (0 : (Fin n → ℝ) →L[ℝ] ℝ) (m.theta.vectorAt u)
  beta : ∀ i ∈ t.itemUsers, HasFDerivAt (fun x => (m.setBeta i (Vec.ofCoords x)).lossAt t)
    (0 : (Fin n → ℝ) →L[ℝ] ℝ) (m.beta.vectorAt i)
  gamma : ∀ i ∈ t.itemUsers, t.HasNeighbor i →
    HasFDerivAt (fun x => (m.setGamma i (Vec.ofCoords x)).lossAt t)
      (0 : (Fin n → ℝ) →L[ℝ] ℝ) (m.gamma.vectorAt i)
  betaBias : m.hyper.useBias = true → ∀ i ∈ t.itemUsers, t.HasNeighbor i →
    HasFDerivAt (fun x => (m.setBetaBias i x).lossAt t) (0 : ℝ →L[ℝ] ℝ) (biasAt m.betaBias i)
  gammaBias : m.hyper.useBias = true → ∀ i ∈ t.itemUsers, t.HasNeighbor i →
    HasFDerivAt (fun x => (m.setGammaBias i x).lossAt t) (0 : ℝ →L[ℝ] ℝ) (biasAt m.gammaBias i)
  globalBias : m.hyper.updateGlobalBias = true → (∃ i ∈ t.itemUsers, t.HasNeighbor i) →
    HasFDerivAt (fun x => (m.setGlobalBias x).lossAt t) (0 : ℝ →L[ℝ] ℝ) m.globalBias

/-- The loss as a function of a block is the **objective along the block**. -/
theorem hasFDerivAt_lossAt_iff {E : Type} [NormedAddCommGroup E] [NormedSpace ℝ E]
    {m : Model ℝ n} {t : Training ℝ} (hm : m.Covers t) (b : Block n E) {f : E → Model ℝ n}
    (hframe : ∀ x, m.Frame (f x)) (hpoint : ∀ x, (f x).point = b.set m.point x) :
    HasFDerivAt (fun x => (f x).lossAt t) (0 : E →L[ℝ] ℝ) (b.get m.point)
      ↔ b.Stationary (t.objective m.hyper) m.point := by
  have hfun : (fun x => (f x).lossAt t) = fun x => t.objective m.hyper (b.set m.point x) := by
    funext x
    rw [lossAt_eq (hm.of_frame (hframe x)), (hframe x).hyper, hpoint]
  rw [hfun]
  rfl

/-- The loss is stationary exactly where the **objective is stationary along every block** that
an iteration fits. -/
theorem stationary_iff {m : Model ℝ n} {t : Training ℝ} (hm : m.Covers t) :
    m.Stationary t ↔
      (∀ u ∈ t.userItems, (Block.theta u).Stationary (t.objective m.hyper) m.point) ∧
      (∀ i ∈ t.itemUsers, t.StationaryItem m.hyper i m.point) ∧
      (m.hyper.updateGlobalBias = true → (∃ i ∈ t.itemUsers, t.HasNeighbor i) →
        Block.globalBias.Stationary (t.objective m.hyper) m.point) := by
  have htheta : ∀ u ∈ t.userItems, _ := fun u hu => hasFDerivAt_lossAt_iff hm (Block.theta u)
    (f := fun x => m.setTheta u (Vec.ofCoords x))
    (fun x => Frame.setTheta ((hm.theta u).2 hu) _)
    fun x => by rw [point_setTheta, Vec.coords_ofCoords]
  have hbeta : ∀ i ∈ t.itemUsers, _ := fun i hi => hasFDerivAt_lossAt_iff hm (Block.beta i)
    (f := fun x => m.setBeta i (Vec.ofCoords x)) (fun x => Frame.setBeta ((hm.beta i).2 hi) _)
    fun x => by rw [point_setBeta, Vec.coords_ofCoords]
  have hgamma : ∀ i ∈ t.itemUsers, _ := fun i hi => hasFDerivAt_lossAt_iff hm (Block.gamma i)
    (f := fun x => m.setGamma i (Vec.ofCoords x))
    (fun x => Frame.setGamma ((hm.gamma i).2 hi) _)
    fun x => by rw [point_setGamma, Vec.coords_ofCoords]
  have hbetaBias : ∀ i ∈ t.itemUsers, _ := fun i hi => hasFDerivAt_lossAt_iff hm
    (Block.betaBias i) (f := m.setBetaBias i)
    (fun x => Frame.setBetaBias ((hm.betaBias i).2 hi) x) fun x => point_setBetaBias m i x
  have hgammaBias : ∀ i ∈ t.itemUsers, _ := fun i hi => hasFDerivAt_lossAt_iff hm
    (Block.gammaBias i) (f := m.setGammaBias i)
    (fun x => Frame.setGammaBias ((hm.gammaBias i).2 hi) x) fun x => point_setGammaBias m i x
  have hglobal := hasFDerivAt_lossAt_iff hm Block.globalBias (f := m.setGlobalBias)
    (fun x => Frame.setGlobalBias m x) fun x => point_setGlobalBias m x
  constructor
  · intro h
    refine ⟨fun u hu => (htheta u hu).1 (h.theta u hu), fun i hi => ⟨?_, ?_, ?_, ?_⟩,
      fun hup hn => hglobal.1 (h.globalBias hup hn)⟩
    · exact (hbeta i hi).1 (h.beta i hi)
    · exact fun hn => (hgamma i hi).1 (h.gamma i hi hn)
    · exact fun hb hn => (hbetaBias i hi).1 (h.betaBias hb i hi hn)
    · exact fun hb hn => (hgammaBias i hi).1 (h.gammaBias hb i hi hn)
  · rintro ⟨husers, hitems, hlast⟩
    refine ⟨fun u hu => (htheta u hu).2 (husers u hu), fun i hi => ?_, fun i hi hn => ?_,
      fun hb i hi hn => ?_, fun hb i hi hn => ?_, fun hup hn => hglobal.2 (hlast hup hn)⟩
    · exact (hbeta i hi).2 (hitems i hi).beta
    · exact (hgamma i hi).2 ((hitems i hi).gamma hn)
    · exact (hbetaBias i hi).2 ((hitems i hi).betaBias hb hn)
    · exact (hgammaBias i hi).2 ((hitems i hi).gammaBias hb hn)

/-- With positive ridges an **iteration** goes through. -/
theorem iterate_done {m : Model ℝ n} {t : Training ℝ} (hpos : m.hyper.Positive)
    (hu : t.userItems.Distinct) (hi : t.itemUsers.Distinct) : (m.iterate t).fault = none := by
  obtain ⟨hf, hhyper⟩ := updateUsers_done hpos hu
  rw [iterate, Outcome.bind_of_done hf]
  rw [← hhyper] at hpos
  exact (updateItems_done hpos hi t.rows).1

end Model

/-- **Fixed points of training**: an iteration goes through; it changes no parameter exactly
where the loss is stationary, and where it changes any the loss is smaller after it. -/
theorem sameParameters_iterate_iff_stationary (m : Model ℝ n) (t : Training ℝ)
    (hpos : m.hyper.Positive) (hg : m.hyper.updateGlobalBias = true → m.hyper.useBias = true)
    (hm : m.Covers t) (hu : t.userItems.Distinct) (hi : t.itemUsers.Distinct)
    (ht : t.Transposed) (hs : t.Symmetric) :
    (m.iterate t).fault = none ∧
      (m.SameParameters (m.iterate t).state ↔ m.Stationary t) ∧
      (¬ m.SameParameters (m.iterate t).state →
        ∃ before after, m.loss t.samples = .ok before ∧
          (m.iterate t).state.loss t.samples = .ok after ∧ after < before) := by
  have hf := Model.iterate_done hpos hu hi
  have himp := Model.improves_iterate hm ht hs hg hf
  have hsame := Model.sameParameters_iff himp.frame
  refine ⟨hf, ?_, fun hne => ?_⟩
  · rw [hsame, Model.stationary_iff hm]
    exact himp.settles.eq_iff
  · have hlt := himp.settles.lt (mt hsame.2 hne)
    refine ⟨_, _, Model.loss_eq m hm, Model.loss_eq _ (hm.of_frame himp.frame), ?_⟩
    rw [himp.frame.hyper]
    exact hlt

/-- Two users and two items that are **neighbours of one another**. -/
noncomputable def Training.mutual : Training ℝ where
  userItems := Table.ofList [(.text "u", [.text "a"]), (.text "v", [.text "a", .text "b"])]
  itemUsers := Table.ofList [(.text "a", [.text "u", .text "v"]), (.text "b", [.text "v"])]
  rows := Table.ofList [(.text "a", [(.text "b", 1)]), (.text "b", [(.text "a", 1)])]
  heldOut := [(.text "w", .text "a")]

theorem Training.transposed_mutual : Training.mutual.Transposed := by
  change ∀ u ∈ Training.mutual.userItems.keys, ∀ i ∈ Training.mutual.itemUsers.keys, _
  decide

theorem Training.symmetric_mutual : Training.mutual.Symmetric := by
  have hkeys : ∀ k ∈ Training.mutual.itemUsers, k = .text "a" ∨ k = .text "b" := by
    change ∀ k ∈ Training.mutual.itemUsers.keys, _
    decide
  have ha : Training.mutual.row (.text "a") = [(.text "b", 1)] := rfl
  have hb : Training.mutual.row (.text "b") = [(.text "a", 1)] := rfl
  intro i hi j hj w
  rcases hkeys i hi with rfl | rfl <;> rcases hkeys j hj with rfl | rfl
  · rfl
  · rw [ha, hb, List.count_singleton, List.count_singleton]
    simp
  · rw [ha, hb, List.count_singleton, List.count_singleton]
    simp
  · rfl

/-- A model of the two users and the two items. -/
noncomputable def Model.mutual : Model ℝ 1 :=
  { (Model.empty Hyper.distrustful 0 ⟨0, 0⟩ : Model ℝ 1) with
    theta := Table.ofList [(.text "u", Vector.singleton 1), (.text "v", Vector.singleton 1)]
    beta := Table.ofList [(.text "a", Vector.singleton 1), (.text "b", Vector.singleton 1)]
    gamma := Table.ofList [(.text "a", Vector.singleton 1), (.text "b", Vector.singleton 1)]
    betaBias := Table.ofList [(.text "a", .real 0), (.text "b", .real 0)]
    gammaBias := Table.ofList [(.text "a", .real 0), (.text "b", .real 0)] }

theorem Model.covers_mutual : Model.mutual.Covers Training.mutual :=
  ⟨fun _ => Iff.rfl, fun _ => Iff.rfl, fun _ => Iff.rfl, fun _ => Iff.rfl, fun _ => Iff.rfl⟩

/-- An iteration of this model goes through and changes a parameter or finds it stationary. -/
theorem sameParameters_iterate_mutual :
    Model.mutual.hyper.Positive ∧ Model.mutual.Covers Training.mutual ∧
      Training.mutual.userItems.Distinct ∧ Training.mutual.itemUsers.Distinct ∧
      Training.mutual.Transposed ∧ Training.mutual.Symmetric ∧
      (Model.mutual.iterate Training.mutual).fault = none ∧
      (Model.mutual.SameParameters (Model.mutual.iterate Training.mutual).state
        ↔ Model.mutual.Stationary Training.mutual) := by
  have hpos : Model.mutual.hyper.Positive :=
    ⟨zero_le_one, le_rfl, zero_lt_one, zero_lt_one, zero_lt_one⟩
  have hu : Training.mutual.userItems.Distinct := by decide
  have hi : Training.mutual.itemUsers.Distinct := by decide
  obtain ⟨hdone, hiff, -⟩ := sameParameters_iterate_iff_stationary Model.mutual Training.mutual
    hpos (fun _ => rfl) Model.covers_mutual hu hi Training.transposed_mutual
    Training.symmetric_mutual
  exact ⟨hpos, Model.covers_mutual, hu, hi, Training.transposed_mutual, Training.symmetric_mutual,
    hdone, hiff⟩

end CoEmbed
