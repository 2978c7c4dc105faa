import CoEmbed.Proofs.Objective.Blocks

/-!
# Sweeps Settle the Parameters

Every step of a sweep that goes through puts the bottom of the objective along one block in
place, so a sweep never raises the objective and lowers it if it changes any parameter. What it
leaves unchanged is stationary along every block it has visited.

* `Model.Improves` — a change of a model that keeps its keys and settles its parameters.
* `Model.improves_updateUsers` — the sweep over users.
* `Training.StationaryItem`, `Model.improves_sweepItem` — the row of an item.
* `Model.improves_updateItems`, `Model.improves_iterate` — the sweep over items, and both
  sweeps.

## Background convention

A sweep computes what its systems have in common once, from the side that it holds fixed. The
invariant of a sweep therefore says that this side is as it was at the start.
-/

namespace CoEmbed

variable {n : ℕ}

namespace Model

variable {m m' m'' : Model ℝ n} {t : Training ℝ}

/-! ### Writing a block -/

theorem point_setTheta (m : Model ℝ n) (u : Key) (v : Vec ℝ n) :
    (m.setTheta u v).point = (Block.theta u).set m.point v.coords := by
  refine Point.ext ?_ rfl rfl rfl rfl rfl
  exact m.theta.vectorAt_insert u v

theorem point_setBeta (m : Model ℝ n) (i : Key) (v : Vec ℝ n) :
    (m.setBeta i v).point = (Block.beta i).set m.point v.coords := by
  refine Point.ext rfl ?_ rfl rfl rfl rfl
  exact m.beta.vectorAt_insert i v

theorem point_setGamma (m : Model ℝ n) (i : Key) (v : Vec ℝ n) :
    (m.setGamma i v).point = (Block.gamma i).set m.point v.coords := by
  refine Point.ext rfl rfl ?_ rfl rfl rfl
  exact m.gamma.vectorAt_insert i v

theorem point_setBetaBias (m : Model ℝ n) (i : Key) (b : ℝ) :
    (m.setBetaBias i b).point = (Block.betaBias i).set m.point b :=
  Point.ext rfl rfl rfl (biasAt_insert m.betaBias i b) rfl rfl

theorem point_setGammaBias (m : Model ℝ n) (i : Key) (b : ℝ) :
    (m.setGammaBias i b).point = (Block.gammaBias i).set m.point b :=
  Point.ext rfl rfl rfl rfl (biasAt_insert m.gammaBias i b) rfl

theorem point_setGlobalBias (m : Model ℝ n) (b : ℝ) :
    (m.setGlobalBias b).point = Block.globalBias.set m.point b := rfl

/-! ### Improvements -/

/-- A change of a model that **keeps its keys and settles its parameters**; `S` says where it
changes nothing. -/
structure Improves (t : Training ℝ) (S : Point n → Prop) (m m' : Model ℝ n) : Prop where
  frame : m.Frame m'
  settles : Settles (t.objective m.hyper) S m.point m'.point

namespace Improves

variable {S T : Point n → Prop}

theorem refl (m : Model ℝ n) (h : S m.point) : Improves t S m m :=
  ⟨Frame.refl m, Settles.refl _ h⟩

/-- **Counting** makes no difference before an improvement, nor after it. -/
theorem of_withCounters {c : Counters} (h : Improves t S (m.withCounters c) m') :
    Improves t S m m' := ⟨(Frame.withCounters m c).trans h.frame, h.settles⟩

theorem withCounters (h : Improves t S m m') (c : Counters) :
    Improves t S m (m'.withCounters c) := ⟨h.frame.trans (Frame.withCounters m' c), h.settles⟩

theorem trans (h : Improves t S m m') (h' : Improves t T m' m'') :
    Improves t (fun p => S p ∧ T p) m m'' := by
  have hsettles := h'.settles
  rw [h.frame.hyper] at hsettles
  exact ⟨h.frame.trans h'.frame, h.settles.trans hsettles⟩

theorem congr (h : Improves t S m m') (hST : ∀ p, S p ↔ T p) : Improves t T m m' :=
  ⟨h.frame, h.settles.congr (hST m.point)⟩

/-- A change that is made **only if something holds** settles what it settles in that case. -/
theorem of_imp {Q : Prop} (hyes : Q → Improves t S m m') (hno : ¬ Q → m' = m) :
    Improves t (fun p => Q → S p) m m' := by
  by_cases hQ : Q
  · exact (hyes hQ).congr fun p => ⟨fun h _ => h, fun h => h hQ⟩
  · rw [hno hQ]
    exact refl m fun h => absurd h hQ

/-- Two steps, each of which improves a model and leaves the users' vectors alone, do so **one
after the other**. -/
theorem bind {S T : Hyper ℝ → Point n → Prop} {o : Outcome (Model ℝ n)}
    {next : Model ℝ n → Outcome (Model ℝ n)} (hm : m.Covers t) (hf : (o.bind next).fault = none)
    (hfirst : o.fault = none → o.state.theta = m.theta ∧ Improves t (S m.hyper) m o.state)
    (hsecond : ∀ m' : Model ℝ n, m'.Covers t → (next m').fault = none →
      (next m').state.theta = m'.theta ∧ Improves t (T m'.hyper) m' (next m').state) :
    (o.bind next).state.theta = m.theta ∧
      Improves t (fun p => S m.hyper p ∧ T m.hyper p) m (o.bind next).state := by
  obtain ⟨hf₁, hf₂⟩ := Outcome.bind_done_iff.1 hf
  obtain ⟨htheta₁, h₁⟩ := hfirst hf₁
  obtain ⟨htheta₂, h₂⟩ := hsecond o.state (hm.of_frame h₁.frame) hf₂
  rw [h₁.frame.hyper] at h₂
  rw [Outcome.bind_of_done hf₁]
  exact ⟨htheta₂.trans htheta₁, h₁.trans h₂⟩

/-- Writing the **bottom of a bowl** into a block improves a model. -/
theorem of_bowl {E : Type} [NormedAddCommGroup E] [NormedSpace ℝ E] {b : Block n E} {x₀ : E}
    (hframe : m.Frame m') (hpoint : m'.point = b.set m.point x₀)
    (hbowl : Bowl (fun x => t.objective m.hyper (b.set m.point x)) x₀) :
    Improves t (b.Stationary (t.objective m.hyper)) m m' :=
  ⟨hframe, hpoint ▸ Block.settles hbowl⟩

/-- Writing the bottom of a bowl, **if there is one**, settles a block in that case. -/
theorem of_bowl? {b : Block n ℝ} {o : Option ℝ} {f : Option ℝ → Model ℝ n} {Q : Prop}
    (hf : f none = m) (hframe : ∀ x, m.Frame (f (some x)))
    (hpoint : ∀ x, (f (some x)).point = b.set m.point x)
    (hbowl : ∀ x, o = some x → Bowl (fun y => t.objective m.hyper (b.set m.point y)) x)
    (hnone : o = none ↔ ¬ Q) :
    Improves t (fun p => Q → b.Stationary (t.objective m.hyper) p) m (f o) := by
  cases o with
  | none =>
      rw [hf]
      exact refl m fun hQ => absurd hQ (hnone.1 rfl)
  | some x =>
      have himp := of_bowl (hframe x) (hpoint x) (hbowl x rfl)
      exact of_imp (fun _ => himp) fun hQ => absurd (hnone.2 hQ) (Option.some_ne_none x)

/-- A sweep whose steps improve a model **improves it as a whole**. -/
theorem each {ρ : Type} {step : Model ℝ n → ρ → Outcome (Model ℝ n)} {S : ρ → Point n → Prop}
    (I : Model ℝ n → Prop) {rs : List ρ} (hI : I m) (hf : (Outcome.each step m rs).fault = none)
    (hstep : ∀ r ∈ rs, ∀ m', m.Frame m' → I m' → (step m' r).fault = none →
      I (step m' r).state ∧ Improves t (S r) m' (step m' r).state) :
    Improves t (fun p => ∀ r ∈ rs, S r p) m (Outcome.each step m rs).state := by
  refine (Outcome.each_prefix (fun past m' => I m' ∧ Improves t (fun p => ∀ r ∈ past, S r p) m m')
    ⟨hI, refl m fun r hr => absurd hr List.not_mem_nil⟩ hf ?_).2
  rintro past r m' hr ⟨hI', hpast⟩ hdone
  obtain ⟨hnext, himp⟩ := hstep r hr m' hpast.frame hI' hdone
  refine ⟨hnext, (hpast.trans himp).congr fun p => ?_⟩
  rw [List.forall_mem_append, List.forall_mem_singleton]

end Improves

/-! ### The sweep over users -/

/-- At the row of a user the **sweep over users** settles the user's vector. -/
theorem improves_sweepUser (hm : m.Covers t) {e : Key × List Key} (he : e ∈ t.userItems.entries)
    (hf : (sweepUser (m.beta.background m.hyper.unobserved m.hyper.ridgeTheta) m e).fault = none) :
    let m' := (sweepUser (m.beta.background m.hyper.unobserved m.hyper.ridgeTheta) m e).state
    m'.beta = m.beta ∧
      Improves t ((Block.theta e.1).Stationary (t.objective m.hyper)) m m' := by
  have hmem : e.1 ∈ m.theta := (hm.theta e.1).2 (List.mem_map_of_mem he)
  rcases sweepUser_cases (m.beta.background m.hyper.unobserved m.hyper.ridgeTheta) m e with
    ⟨hnot, -⟩ | ⟨-, c, ⟨v, hv, hstep⟩ | ⟨f, -, hstep⟩⟩
  · exact absurd hmem hnot
  · rw [hstep]
    have hbowl := bowl_theta hm (Table.get?_of_mem_entries he) hv
    have hframe := (Frame.withCounters m c).trans (Frame.setTheta (m := m.withCounters c) hmem v)
    exact ⟨rfl, Improves.of_bowl hframe (point_setTheta (m.withCounters c) e.1 v) hbowl⟩
  · rw [hstep] at hf
    cases hf

/-- A **sweep over users** that goes through settles the vectors of the users. -/
theorem improves_updateUsers (hm : m.Covers t) (hf : (m.updateUsers t.userItems).fault = none) :
    Improves t (fun p => ∀ u ∈ t.userItems, (Block.theta u).Stationary (t.objective m.hyper) p) m
      (m.updateUsers t.userItems).state := by
  rw [updateUsers] at hf ⊢
  obtain ⟨heach, -⟩ := Outcome.bind_done_iff.1 hf
  rw [Outcome.bind_of_done heach]
  have hsweep := Improves.each (S := fun e => (Block.theta e.1).Stationary (t.objective m.hyper))
    (t := t) (fun m' => m'.beta = m.beta) rfl heach fun e he m' hframe hbeta hdone => by
      have hm' := hm.of_frame hframe
      rw [← hbeta, ← hframe.hyper] at hdone ⊢
      exact improves_sweepUser hm' he hdone
  exact (hsweep.withCounters _).congr fun p => t.userItems.forall_mem_entries
    fun u => (Block.theta u).Stationary (t.objective m.hyper) p

end Model

/-! ### The sweep over items -/

/-- The objective is stationary along **every block of an item** that can be fitted: the vector
of the item, and with a neighbour also the vector and the biases that the neighbours' weights
determine. -/
structure Training.StationaryItem (t : Training ℝ) (h : Hyper ℝ) (i : Key) (p : Point n) :
    Prop where
  beta : (Block.beta i).Stationary (t.objective h) p
  gamma : t.HasNeighbor i → (Block.gamma i).Stationary (t.objective h) p
  betaBias : h.useBias = true → t.HasNeighbor i →
    (Block.betaBias i).Stationary (t.objective h) p
  gammaBias : h.useBias = true → t.HasNeighbor i →
    (Block.gammaBias i).Stationary (t.objective h) p

namespace Model

variable {m m' m'' : Model ℝ n} {t : Training ℝ}

/-- The update of the vector of an **item** settles it. -/
theorem improves_updateBeta (hm : m.Covers t) (ht : t.Transposed) {i : Key} {ks : List Key}
    (hi : t.itemUsers.get? i = some ks)
    (hf : (updateBeta (m.theta.background m.hyper.unobserved m.hyper.ridgeBeta) m i ks
      (t.row i)).fault = none) :
    let m' := (updateBeta (m.theta.background m.hyper.unobserved m.hyper.ridgeBeta) m i ks
      (t.row i)).state
    m'.theta = m.theta ∧ Improves t ((Block.beta i).Stationary (t.objective m.hyper)) m m' := by
  rcases updateBeta_cases (m.theta.background m.hyper.unobserved m.hyper.ridgeBeta) m i ks
    (t.row i) with ⟨v, hv, hstep⟩ | ⟨f, -, hstep⟩
  · rw [hstep]
    have hmem := (hm.beta i).2 (Table.mem_of_get? hi)
    exact ⟨rfl, Improves.of_bowl (Frame.setBeta hmem v) (point_setBeta m i v)
      (bowl_beta hm ht hi hv)⟩
  · rw [hstep] at hf
    cases hf

/-- The update of the vector of an item **as a neighbour** settles it. -/
theorem improves_updateGamma (hm : m.Covers t) (hs : t.Symmetric) {i : Key}
    (hi : i ∈ t.itemUsers) (hf : (updateGamma m i (t.row i)).fault = none) :
    (updateGamma m i (t.row i)).state.theta = m.theta ∧
      Improves t (fun p => t.HasNeighbor i → (Block.gamma i).Stationary (t.objective m.hyper) p) m
        (updateGamma m i (t.row i)).state := by
  rcases updateGamma_cases m i (t.row i) with ⟨v, hv, hstep⟩ | ⟨hnone, hstep⟩ | ⟨f, -, hstep⟩
  · rw [hstep]
    have hn : t.HasNeighbor i := by
      by_contra hn
      rw [newGamma_of_not_hasNeighbor (mt (hm.hasNeighbor_beta i).1 hn)] at hv
      cases hv
    have himp := Improves.of_bowl (Frame.setGamma ((hm.gamma i).2 hi) v) (point_setGamma m i v)
      (bowl_gamma hm hs hi hn hv)
    exact ⟨rfl, Improves.of_imp (fun _ => himp) fun hno => absurd hn hno⟩
  · rw [hstep]
    refine ⟨rfl, Improves.refl m fun hn => ?_⟩
    obtain ⟨v, hv, -⟩ := (newGamma_eq_ok_iff ((hm.hasNeighbor_beta i).2 hn)).1 hnone
    cases hv
  · rw [hstep] at hf
    cases hf

/-- Writing the best **bias of an item** settles it. -/
theorem improves_putBetaBias (hm : m.Covers t) (hb : m.hyper.useBias = true) {i : Key}
    (hi : i ∈ t.itemUsers) {o : Option ℝ}
    (ho : newBias i (t.row i) m.beta m.gamma (some m.gammaBias) m.globalBias = .ok o) :
    Improves t (fun p => t.HasNeighbor i →
      (Block.betaBias i).Stationary (t.objective m.hyper) p) m (m.putBetaBias i o) := by
  obtain ⟨hbowl, hnone⟩ := bowl_betaBias hm hb hi ho
  have hframe := fun b => Frame.setBetaBias ((hm.betaBias i).2 hi) b
  exact Improves.of_bowl? (f := m.putBetaBias i) rfl hframe (point_setBetaBias m i) hbowl hnone

/-- Writing the best bias of an item **as a neighbour** settles it. -/
theorem improves_putGammaBias (hm : m.Covers t) (hs : t.Symmetric) (hb : m.hyper.useBias = true)
    {i : Key} (hi : i ∈ t.itemUsers) {o : Option ℝ}
    (ho : newBias i (t.row i) m.gamma m.beta (some m.betaBias) m.globalBias = .ok o) :
    Improves t (fun p => t.HasNeighbor i →
      (Block.gammaBias i).Stationary (t.objective m.hyper) p) m (m.putGammaBias i o) := by
  obtain ⟨hbowl, hnone⟩ := bowl_gammaBias hm hs hb hi ho
  have hframe := fun b => Frame.setGammaBias ((hm.gammaBias i).2 hi) b
  exact Improves.of_bowl? (f := m.putGammaBias i) rfl hframe (point_setGammaBias m i) hbowl hnone

/-- The update of the **two biases** of an item settles both. -/
theorem improves_updateBiases (hm : m.Covers t) (hs : t.Symmetric) (hb : m.hyper.useBias = true)
    {i : Key} (hi : i ∈ t.itemUsers) (hf : (updateBiases m i (t.row i)).fault = none) :
    (updateBiases m i (t.row i)).state.theta = m.theta ∧
      Improves t (fun p =>
        (t.HasNeighbor i → (Block.betaBias i).Stationary (t.objective m.hyper) p) ∧
        (t.HasNeighbor i → (Block.gammaBias i).Stationary (t.objective m.hyper) p)) m
        (updateBiases m i (t.row i)).state := by
  rcases updateBiases_cases m i (t.row i) with
    ⟨o, o', ho, ho', hstep⟩ | ⟨f, -, hstep⟩ | ⟨o, f, -, -, hstep⟩
  · rw [hstep]
    have hown := improves_putBetaBias hm hb hi ho
    have hhyper := hown.frame.hyper
    have hother := improves_putGammaBias (hm.of_frame hown.frame) hs (hhyper ▸ hb) hi ho'
    rw [hhyper] at hother
    exact ⟨by cases o <;> cases o' <;> rfl, hown.trans hother⟩
  · rw [hstep] at hf
    cases hf
  · rw [hstep] at hf
    cases hf

/-- At the row of an item the **sweep over items** settles all that belongs to the item. -/
theorem improves_sweepItem (hm : m.Covers t) (ht : t.Transposed) (hs : t.Symmetric)
    {e : Key × List Key} (he : e ∈ t.itemUsers.entries)
    (hf : (sweepItem (m.theta.background m.hyper.unobserved m.hyper.ridgeBeta) t.rows m e).fault
      = none) :
    let m' := (sweepItem (m.theta.background m.hyper.unobserved m.hyper.ridgeBeta) t.rows m
      e).state
    m'.theta = m.theta ∧ Improves t (t.StationaryItem m.hyper e.1) m m' := by
  have hi : e.1 ∈ t.itemUsers := List.mem_map_of_mem he
  rcases sweepItem_cases (m.theta.background m.hyper.unobserved m.hyper.ridgeBeta) t.rows m e with
    ⟨hnot, -⟩ | ⟨-, c, hstep⟩
  · exact absurd ((hm.beta e.1).2 hi) hnot
  · rw [hstep] at hf ⊢
    have hm₀ : (m.withCounters c).Covers t := hm.of_frame (Frame.withCounters m c)
    have hvectors := fun hf' => Improves.bind
      (S := fun h => (Block.beta e.1).Stationary (t.objective h))
      (T := fun h p => t.HasNeighbor e.1 → (Block.gamma e.1).Stationary (t.objective h) p) hm₀ hf'
      (fun hf'' => improves_updateBeta hm₀ ht (Table.get?_of_mem_entries he) hf'')
      fun m' hm' hf'' => improves_updateGamma hm' hs hi hf''
    obtain ⟨htheta, himp⟩ := Improves.bind hm₀ hf hvectors
      (S := fun h p => (Block.beta e.1).Stationary (t.objective h) p ∧
        (t.HasNeighbor e.1 → (Block.gamma e.1).Stationary (t.objective h) p))
      (T := fun h p => h.useBias = true →
        (t.HasNeighbor e.1 → (Block.betaBias e.1).Stationary (t.objective h) p) ∧
        (t.HasNeighbor e.1 → (Block.gammaBias e.1).Stationary (t.objective h) p))
      fun m' hm' hf' => by
        by_cases hb : m'.hyper.useBias = true
        · rw [if_pos hb] at hf' ⊢
          obtain ⟨htheta, himp⟩ := improves_updateBiases hm' hs hb hi hf'
          exact ⟨htheta, Improves.of_imp (fun _ => himp) fun hno => absurd hb hno⟩
        · rw [if_neg hb]
          exact ⟨rfl, Improves.refl m' fun hyes => absurd hyes hb⟩
    refine ⟨htheta, himp.of_withCounters.congr fun p => ?_⟩
    constructor
    · rintro ⟨⟨hbeta, hgamma⟩, hbias⟩
      exact ⟨hbeta, hgamma, fun hb => (hbias hb).1, fun hb => (hbias hb).2⟩
    · rintro ⟨hbeta, hgamma, hown, hother⟩
      exact ⟨⟨hbeta, hgamma⟩, fun hb => ⟨hown hb, hother hb⟩⟩

/-- The update of the **global bias** settles it. -/
theorem improves_updateGlobal (hm : m.Covers t)
    (hg : m.hyper.updateGlobalBias = true → m.hyper.useBias = true)
    (hf : (updateGlobal m t.itemUsers.keys t.rows).fault = none) :
    Improves t (fun p => m.hyper.updateGlobalBias = true →
      (∃ i ∈ t.itemUsers, t.HasNeighbor i) →
        Block.globalBias.Stationary (t.objective m.hyper) p) m
      (updateGlobal m t.itemUsers.keys t.rows).state := by
  by_cases hup : m.hyper.updateGlobalBias = true
  · refine Improves.of_imp (fun _ => ?_) fun hno => absurd hup hno
    rcases updateGlobal_cases m t.itemUsers.keys t.rows hup with
      ⟨b, hb, hstep⟩ | ⟨hnone, hstep⟩ | ⟨f, -, hstep⟩
    · obtain ⟨hbowl, hnone⟩ := bowl_globalBias hm (hg hup) hb
      rw [hstep]
      have himp := Improves.of_bowl (Frame.setGlobalBias m b) (point_setGlobalBias m b)
        (hbowl b rfl)
      exact Improves.of_imp (fun _ => himp) fun hn =>
        absurd (hnone.2 hn) (Option.some_ne_none b)
    · rw [hstep]
      exact Improves.refl m fun h => absurd h ((bowl_globalBias hm (hg hup) hnone).2.1 rfl)
    · rw [hstep] at hf
      cases hf
  · rw [updateGlobal, if_neg hup]
    exact Improves.refl m fun h => absurd h hup

/-- A **sweep over items** that goes through settles all that belongs to the items, and the
global bias. -/
theorem improves_updateItems (hm : m.Covers t) (ht : t.Transposed) (hs : t.Symmetric)
    (hg : m.hyper.updateGlobalBias = true → m.hyper.useBias = true)
    (hf : (m.updateItems t.itemUsers t.rows).fault = none) :
    Improves t (fun p => (∀ i ∈ t.itemUsers, t.StationaryItem m.hyper i p) ∧
      (m.hyper.updateGlobalBias = true → (∃ i ∈ t.itemUsers, t.HasNeighbor i) →
        Block.globalBias.Stationary (t.objective m.hyper) p)) m
      (m.updateItems t.itemUsers t.rows).state := by
  rw [updateItems] at hf ⊢
  obtain ⟨hf', -⟩ := Outcome.bind_done_iff.1 hf
  obtain ⟨heach, hglobal⟩ := Outcome.bind_done_iff.1 hf'
  rw [Outcome.bind_of_done hf', Outcome.bind_of_done heach]
  have hsweep := Improves.each (S := fun e => t.StationaryItem m.hyper e.1) (t := t)
    (fun m' => m'.theta = m.theta) rfl heach fun e he m' hframe htheta hdone => by
      have hm' := hm.of_frame hframe
      rw [← htheta, ← hframe.hyper] at hdone ⊢
      exact improves_sweepItem hm' ht hs he hdone
  have hhyper := hsweep.frame.hyper
  have hlast := improves_updateGlobal (hm.of_frame hsweep.frame) (by rwa [hhyper]) hglobal
  rw [hhyper] at hlast
  have hrows := fun p : Point n =>
    t.itemUsers.forall_mem_entries fun i => t.StationaryItem m.hyper i p
  have htotal := (hsweep.trans hlast).congr fun p => and_congr_left' (hrows p)
  exact htotal.withCounters _

/-- An **iteration** that goes through settles everything. -/
theorem improves_iterate (hm : m.Covers t) (ht : t.Transposed) (hs : t.Symmetric)
    (hg : m.hyper.updateGlobalBias = true → m.hyper.useBias = true)
    (hf : (m.iterate t).fault = none) :
    Improves t (fun p => (∀ u ∈ t.userItems, (Block.theta u).Stationary (t.objective m.hyper) p) ∧
      (∀ i ∈ t.itemUsers, t.StationaryItem m.hyper i p) ∧
      (m.hyper.updateGlobalBias = true → (∃ i ∈ t.itemUsers, t.HasNeighbor i) →
        Block.globalBias.Stationary (t.objective m.hyper) p)) m (m.iterate t).state := by
  rw [iterate] at hf ⊢
  obtain ⟨husers, hitems⟩ := Outcome.bind_done_iff.1 hf
  rw [Outcome.bind_of_done husers]
  have hfirst := improves_updateUsers hm husers
  have hhyper := hfirst.frame.hyper
  have hsecond := improves_updateItems (hm.of_frame hfirst.frame) ht hs (by rwa [hhyper]) hitems
  rw [hhyper] at hsecond
  exact hfirst.trans hsecond

end Model

end CoEmbed
