import CoEmbed.Model.Sweep
import CoEmbed.Proofs.Outcome

/-!
# The Steps of a Sweep

Each step of a sweep computes a value and writes it, or meets a fault and writes nothing. The
lemmas here say so once for every step; what a sweep does to a model follows from them.

* `Model.setTheta` and its kin — one value is written.
* `Model.sweepUser_cases`, `Model.updateBeta_cases`, `Model.updateGamma_cases`,
  `Model.updateBiases_cases`, `Model.updateGlobal_cases` — all that a step can do.
* `Model.updateBeta_eq_writing` and its kin — the same steps as equations.
* `Model.Frame` — two models have the same hyperparameters, keys and histories.

## Counter convention

What a sweep counts is of no consequence for the parameters: a step counts into some counters,
and the lemmas do not say which.
-/

namespace CoEmbed.Model

variable {ρ α : Type} {n : Nat}

/-! ### Writing one value -/

/-- The model with the vector of a **user** written. -/
def setTheta (m : Model α n) (u : Key) (v : Vec α n) : Model α n :=
  { m with theta := m.theta.insert u v }

/-- The model with the vector of an **item** written. -/
def setBeta (m : Model α n) (i : Key) (v : Vec α n) : Model α n :=
  { m with beta := m.beta.insert i v }

/-- The model with the vector of an item **as a neighbour** written. -/
def setGamma (m : Model α n) (i : Key) (v : Vec α n) : Model α n :=
  { m with gamma := m.gamma.insert i v }

/-- The model with the **bias of an item** written. -/
def setBetaBias (m : Model α n) (i : Key) (b : α) : Model α n :=
  { m with betaBias := m.betaBias.insert i (.real b) }

/-- The model with the bias of an item **as a neighbour** written. -/
def setGammaBias (m : Model α n) (i : Key) (b : α) : Model α n :=
  { m with gammaBias := m.gammaBias.insert i (.real b) }

/-- The model with the **global bias** written. -/
def setGlobalBias (m : Model α n) (b : α) : Model α n := { m with globalBias := b }

/-! ### What a step can do -/

section

variable [Scalar α] [Operand ρ α]

/-- At a row the **sweep over users** passes over a stranger, writes a vector, or fails. -/
theorem sweepUser_cases (background : Mat α n n) (m : Model α n) (row : Key × List Key) :
    (row.1 ∉ m.theta ∧ sweepUser background m row = .done m) ∨
    (row.1 ∈ m.theta ∧ ∃ c,
      (∃ v, newTheta row.2 m.beta background m.hyper.unobserved m.hyper.observed = .ok v ∧
        sweepUser background m row = .done ((m.withCounters c).setTheta row.1 v)) ∨
      (∃ f, newTheta row.2 m.beta background m.hyper.unobserved m.hyper.observed = .error f ∧
        sweepUser background m row = .failed (m.withCounters c) f)) := by
  by_cases h : row.1 ∈ m.theta
  · let c := (m.countRow .thetaTotal .thetaTrainable .skippedItems row.2 m.beta).counters
    refine .inr ⟨h, c, ?_⟩
    rw [sweepUser, if_pos h]
    dsimp only [countRow, count]
    cases newTheta row.2 m.beta background m.hyper.unobserved m.hyper.observed with
    | ok v => exact .inl ⟨v, rfl, rfl⟩
    | error f => exact .inr ⟨f, rfl, rfl⟩
  · exact .inl ⟨h, if_neg h⟩

/-- The update of the vector of an **item** writes it, or fails. -/
theorem updateBeta_cases (background : Mat α n n) (m : Model α n) (item : Key)
    (raters : List Key) (row : Row ρ) :
    (∃ v, newBeta item raters row m.theta m.gamma m.seenBetaBias m.seenGammaBias background
        m.hyper.unobserved m.hyper.observed m.globalBias = .ok v ∧
      updateBeta background m item raters row = .done (m.setBeta item v)) ∨
    (∃ f, newBeta item raters row m.theta m.gamma m.seenBetaBias m.seenGammaBias background
        m.hyper.unobserved m.hyper.observed m.globalBias = .error f ∧
      updateBeta background m item raters row = .failed m f) := by
  rw [updateBeta]
  cases newBeta item raters row m.theta m.gamma m.seenBetaBias m.seenGammaBias background
    m.hyper.unobserved m.hyper.observed m.globalBias with
  | ok v => exact .inl ⟨v, rfl, rfl⟩
  | error f => exact .inr ⟨f, rfl, rfl⟩

/-- The update of the vector of an item **as a neighbour** writes it, has nothing to write, or
fails. -/
theorem updateGamma_cases (m : Model α n) (item : Key) (row : Row ρ) :
    (∃ v, newGamma item row m.beta m.seenBetaBias m.seenGammaBias m.hyper.ridgeGamma
        m.globalBias = .ok (some v) ∧
      updateGamma m item row = .done (m.setGamma item v)) ∨
    (newGamma item row m.beta m.seenBetaBias m.seenGammaBias m.hyper.ridgeGamma
        m.globalBias = .ok none ∧
      updateGamma m item row = .done m) ∨
    (∃ f, newGamma item row m.beta m.seenBetaBias m.seenGammaBias m.hyper.ridgeGamma
        m.globalBias = .error f ∧
      updateGamma m item row = .failed m f) := by
  rw [updateGamma]
  cases newGamma item row m.beta m.seenBetaBias m.seenGammaBias m.hyper.ridgeGamma
    m.globalBias with
  | ok o =>
      cases o with
      | some v => exact .inl ⟨v, rfl, rfl⟩
      | none => exact .inr (.inl ⟨rfl, rfl⟩)
  | error f => exact .inr (.inr ⟨f, rfl, rfl⟩)

/-- The model with a **bias of an item** written, if there is one to write. -/
def putBetaBias (m : Model α n) (i : Key) (o : Option α) : Model α n :=
  match o with
  | some b => m.setBetaBias i b
  | none => m

/-- The model with a bias of an item **as a neighbour** written, if there is one to write. -/
def putGammaBias (m : Model α n) (i : Key) (o : Option α) : Model α n :=
  match o with
  | some b => m.setGammaBias i b
  | none => m

/-- The update of the **two biases** writes the first before it looks at the second. -/
theorem updateBiases_cases (m : Model α n) (item : Key) (row : Row ρ) :
    (∃ o o', newBias item row m.beta m.gamma (some m.gammaBias) m.globalBias = .ok o ∧
      newBias item row (m.putBetaBias item o).gamma (m.putBetaBias item o).beta
        (some (m.putBetaBias item o).betaBias) (m.putBetaBias item o).globalBias = .ok o' ∧
      updateBiases m item row = .done ((m.putBetaBias item o).putGammaBias item o')) ∨
    (∃ f, newBias item row m.beta m.gamma (some m.gammaBias) m.globalBias = .error f ∧
      updateBiases m item row = .failed m f) ∨
    (∃ o f, newBias item row m.beta m.gamma (some m.gammaBias) m.globalBias = .ok o ∧
      newBias item row (m.putBetaBias item o).gamma (m.putBetaBias item o).beta
        (some (m.putBetaBias item o).betaBias) (m.putBetaBias item o).globalBias = .error f ∧
      updateBiases m item row = .failed (m.putBetaBias item o) f) := by
  cases hb : newBias item row m.beta m.gamma (some m.gammaBias) m.globalBias with
  | error f => exact .inr (.inl ⟨f, rfl, by rw [updateBiases, hb]⟩)
  | ok o =>
      cases h : newBias item row (m.putBetaBias item o).gamma (m.putBetaBias item o).beta
        (some (m.putBetaBias item o).betaBias) (m.putBetaBias item o).globalBias with
      | error f =>
          refine .inr (.inr ⟨o, f, rfl, h, ?_⟩)
          rw [updateBiases, hb]
          cases o with
          | none =>
              dsimp only [putBetaBias] at h ⊢
              rw [h]
          | some b =>
              dsimp only [putBetaBias, setBetaBias] at h ⊢
              rw [h]
      | ok o' =>
          refine .inl ⟨o, o', rfl, h, ?_⟩
          rw [updateBiases, hb]
          cases o with
          | none =>
              dsimp only [putBetaBias] at h ⊢
              rw [h]
              rfl
          | some b =>
              dsimp only [putBetaBias, setBetaBias] at h ⊢
              rw [h]
              rfl

/-- The update of the **global bias** writes it, has nothing to write, or fails. -/
theorem updateGlobal_cases (m : Model α n) (items : List Key) (rows : Table Key (Row ρ))
    (h : m.hyper.updateGlobalBias = true) :
    (∃ b, newGlobalBias items rows m.beta m.gamma (some m.betaBias) (some m.gammaBias)
        = .ok (some b) ∧
      updateGlobal m items rows = .done (m.setGlobalBias b)) ∨
    (newGlobalBias items rows m.beta m.gamma (some m.betaBias) (some m.gammaBias) = .ok none ∧
      updateGlobal m items rows = .done m) ∨
    (∃ f, newGlobalBias items rows m.beta m.gamma (some m.betaBias) (some m.gammaBias)
        = .error f ∧
      updateGlobal m items rows = .failed m f) := by
  rw [updateGlobal, if_pos h]
  cases newGlobalBias items rows m.beta m.gamma (some m.betaBias) (some m.gammaBias) with
  | ok o =>
      cases o with
      | some b => exact .inl ⟨b, rfl, rfl⟩
      | none => exact .inr (.inl ⟨rfl, rfl⟩)
  | error f => exact .inr (.inr ⟨f, rfl, rfl⟩)

/-- At the row of a registered item the three updates follow one another; a stranger is passed
over. -/
theorem sweepItem_cases (background : Mat α n n) (rows : Table Key (Row ρ)) (m : Model α n)
    (row : Key × List Key) :
    (row.1 ∉ m.beta ∧ sweepItem background rows m row = .done m) ∨
    (row.1 ∈ m.beta ∧ ∃ c, sweepItem background rows m row
      = ((updateBeta background (m.withCounters c) row.1 row.2
          ((rows.get? row.1).getD [])).bind fun m =>
        updateGamma m row.1 ((rows.get? row.1).getD [])).bind fun m =>
          if m.hyper.useBias then updateBiases m row.1 ((rows.get? row.1).getD [])
          else .done m) := by
  by_cases h : row.1 ∈ m.beta
  · refine .inr ⟨h, ((m.countRow .betaTotal .betaTrainable .skippedUsers row.2 m.theta).count
      .skippedItems ((((rows.get? row.1).getD []).filter fun e =>
        decide (e.1 ∉ m.gamma)).length)).counters, ?_⟩
    exact if_pos h
  · exact .inl ⟨h, if_neg h⟩

/-! ### Steps as equations -/

/-- The row of a registered **user** writes the solution of a system. -/
theorem sweepUser_eq_writing (background : Mat α n n) (m : Model α n) (row : Key × List Key) :
    let counted := m.countRow .thetaTotal .thetaTrainable .skippedItems row.2 m.beta
    sweepUser background m row
      = if row.1 ∈ m.theta then
          Outcome.writing counted (counted.setTheta row.1)
            (newTheta row.2 m.beta background m.hyper.unobserved m.hyper.observed)
        else .done m := by
  intro counted
  rw [sweepUser]
  split
  · dsimp only [countRow, count]
    cases newTheta row.2 m.beta background m.hyper.unobserved m.hyper.observed <;> rfl
  · rfl

/-- The update of the vector of an **item** writes the solution of a system. -/
theorem updateBeta_eq_writing (background : Mat α n n) (m : Model α n) (item : Key)
    (raters : List Key) (row : Row ρ) :
    updateBeta background m item raters row
      = Outcome.writing m (m.setBeta item) (newBeta item raters row m.theta m.gamma m.seenBetaBias
          m.seenGammaBias background m.hyper.unobserved m.hyper.observed m.globalBias) := by
  rw [updateBeta]
  cases newBeta item raters row m.theta m.gamma m.seenBetaBias m.seenGammaBias background
    m.hyper.unobserved m.hyper.observed m.globalBias <;> rfl

/-- The update of the vector of an item **as a neighbour** writes the solution of a system, if
there is one to solve. -/
theorem updateGamma_eq_writing (m : Model α n) (item : Key) (row : Row ρ) :
    updateGamma m item row
      = Outcome.writing m (fun o => o.elim m (m.setGamma item)) (newGamma item row m.beta
          m.seenBetaBias m.seenGammaBias m.hyper.ridgeGamma m.globalBias) := by
  rw [updateGamma]
  rcases newGamma item row m.beta m.seenBetaBias m.seenGammaBias m.hyper.ridgeGamma m.globalBias
    with f | (_ | v) <;> rfl

/-- The update of the **two biases** writes one mean after the other. -/
theorem updateBiases_eq_writing (m : Model α n) (item : Key) (row : Row ρ) :
    updateBiases m item row
      = (Outcome.writing m (m.putBetaBias item)
          (newBias item row m.beta m.gamma (some m.gammaBias) m.globalBias)).bind fun m =>
        Outcome.writing m (m.putGammaBias item)
          (newBias item row m.gamma m.beta (some m.betaBias) m.globalBias) := by
  rcases updateBiases_cases m item row with
    ⟨o, o', hb, hc, hstep⟩ | ⟨f, hb, hstep⟩ | ⟨o, f, hb, hc, hstep⟩
  · rw [hstep, hb]
    exact (congrArg (Outcome.writing _ ((m.putBetaBias item o).putGammaBias item)) hc).symm
  · rw [hstep, hb]
    rfl
  · rw [hstep, hb]
    exact (congrArg (Outcome.writing _ ((m.putBetaBias item o).putGammaBias item)) hc).symm

/-- The update of the **global bias** writes a mean, if it is to be learned. -/
theorem updateGlobal_eq_writing (m : Model α n) (items : List Key) (rows : Table Key (Row ρ)) :
    updateGlobal m items rows
      = if m.hyper.updateGlobalBias then
          Outcome.writing m (fun o => o.elim m m.setGlobalBias)
            (newGlobalBias items rows m.beta m.gamma (some m.betaBias) (some m.gammaBias))
        else .done m := by
  rw [updateGlobal]
  split
  · rcases newGlobalBias items rows m.beta m.gamma (some m.betaBias) (some m.gammaBias)
      with f | (_ | b) <;> rfl
  · rfl

end

/-! ### What a sweep leaves alone -/

/-- Two models have the **same hyperparameters, the same keys** and the same histories. -/
structure Frame (m m' : Model α n) : Prop where
  hyper : m'.hyper = m.hyper
  theta : m'.theta.keys = m.theta.keys
  beta : m'.beta.keys = m.beta.keys
  gamma : m'.gamma.keys = m.gamma.keys
  betaBias : m'.betaBias.keys = m.betaBias.keys
  gammaBias : m'.gammaBias.keys = m.gammaBias.keys
  histories : m'.histories = m.histories

namespace Frame

variable {m m' m'' : Model α n}

theorem refl (m : Model α n) : Frame m m := ⟨rfl, rfl, rfl, rfl, rfl, rfl, rfl⟩

theorem trans (h : Frame m m') (h' : Frame m' m'') : Frame m m'' where
  hyper := h'.hyper.trans h.hyper
  theta := h'.theta.trans h.theta
  beta := h'.beta.trans h.beta
  gamma := h'.gamma.trans h.gamma
  betaBias := h'.betaBias.trans h.betaBias
  gammaBias := h'.gammaBias.trans h.gammaBias
  histories := h'.histories.trans h.histories

/-- Counting leaves everything else alone. -/
theorem withCounters (m : Model α n) (c : Counters) : Frame m (m.withCounters c) :=
  ⟨rfl, rfl, rfl, rfl, rfl, rfl, rfl⟩

theorem setTheta {u : Key} (h : u ∈ m.theta) (v : Vec α n) : Frame m (m.setTheta u v) :=
  ⟨rfl, Table.keys_insert_of_mem h v, rfl, rfl, rfl, rfl, rfl⟩

theorem setBeta {i : Key} (h : i ∈ m.beta) (v : Vec α n) : Frame m (m.setBeta i v) :=
  ⟨rfl, rfl, Table.keys_insert_of_mem h v, rfl, rfl, rfl, rfl⟩

theorem setGamma {i : Key} (h : i ∈ m.gamma) (v : Vec α n) : Frame m (m.setGamma i v) :=
  ⟨rfl, rfl, rfl, Table.keys_insert_of_mem h v, rfl, rfl, rfl⟩

theorem setBetaBias {i : Key} (h : i ∈ m.betaBias) (b : α) : Frame m (m.setBetaBias i b) :=
  ⟨rfl, rfl, rfl, rfl, Table.keys_insert_of_mem h (.real b), rfl, rfl⟩

theorem setGammaBias {i : Key} (h : i ∈ m.gammaBias) (b : α) : Frame m (m.setGammaBias i b) :=
  ⟨rfl, rfl, rfl, rfl, rfl, Table.keys_insert_of_mem h (.real b), rfl⟩

theorem setGlobalBias (m : Model α n) (b : α) : Frame m (m.setGlobalBias b) :=
  ⟨rfl, rfl, rfl, rfl, rfl, rfl, rfl⟩

end Frame

end CoEmbed.Model
