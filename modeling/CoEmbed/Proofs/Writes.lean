import CoEmbed.Proofs.Sweep

/-!
# What a Sweep Writes

The step at a row writes what belongs to the key of the row, so a sweep over some rows leaves
alone whatever belongs to other keys, and everything that is not kept by key.

* `Model.WritesUsers`, `Model.WritesItems` — nothing is written but vectors of some users, or
  entries of some items.
* `Model.writesUsers_sweepUser`, `Model.writesItems_sweepItem` — the steps.
* `Model.sweepUsers`, `Model.sweepItems` — the rows of a sweep, without what is done at its end.
* `Model.writesUsers_sweepUsers`, `Model.writesItems_sweepItems` — the rows one after the other.

## Rest convention

That two models agree in the rest is one equation between records, which names the fields that
may differ.
-/

namespace CoEmbed

variable {ρ α : Type} {n : Nat}

namespace Model

/-! ### What a sweep writes -/

/-- A model in which nothing has been written but the vectors of **some of the users**, and what
has been counted. -/
structure WritesUsers (p : Key → Prop) (m m' : Model α n) : Prop where
  rest : m' = { m with theta := m'.theta, counters := m'.counters }
  theta : ∀ u, ¬ p u → m'.theta.get? u = m.theta.get? u

namespace WritesUsers

variable {p q : Key → Prop} {m m' m'' : Model α n}

theorem refl (p : Key → Prop) (m : Model α n) : WritesUsers p m m := ⟨rfl, fun _ _ => rfl⟩

theorem trans (h : WritesUsers p m m') (h' : WritesUsers p m' m'') : WritesUsers p m m'' where
  rest := by
    have hset := congrArg (fun x : Model α n =>
      { x with theta := m''.theta, counters := m''.counters }) h.rest
    exact Eq.trans h'.rest hset
  theta u hu := (h'.theta u hu).trans (h.theta u hu)

/-- The vectors of more users may be written than are. -/
theorem mono (h : WritesUsers p m m') (hpq : ∀ u, p u → q u) : WritesUsers q m m' where
  rest := h.rest
  theta u hu := h.theta u (mt (hpq u) hu)

theorem withCounters (p : Key → Prop) (m : Model α n) (c : Counters) :
    WritesUsers p m (m.withCounters c) := ⟨rfl, fun _ _ => rfl⟩

theorem setTheta (m : Model α n) (u : Key) (v : Vec α n) : WritesUsers (· = u) m (m.setTheta u v) :=
  ⟨rfl, fun _ hk => Table.get?_insert_of_ne _ hk v⟩

end WritesUsers

/-- A model in which nothing has been written but **entries of some of the items**, and what has
been counted. -/
structure WritesItems (p : Key → Prop) (m m' : Model α n) : Prop where
  rest : m' = { m with
    beta := m'.beta
    gamma := m'.gamma
    betaBias := m'.betaBias
    gammaBias := m'.gammaBias
    counters := m'.counters }
  beta : ∀ j, ¬ p j → m'.beta.get? j = m.beta.get? j
  gamma : ∀ j, ¬ p j → m'.gamma.get? j = m.gamma.get? j
  betaBias : ∀ j, ¬ p j → m'.betaBias.get? j = m.betaBias.get? j
  gammaBias : ∀ j, ¬ p j → m'.gammaBias.get? j = m.gammaBias.get? j

namespace WritesItems

variable {p q : Key → Prop} {m m' m'' : Model α n}

theorem refl (p : Key → Prop) (m : Model α n) : WritesItems p m m :=
  ⟨rfl, fun _ _ => rfl, fun _ _ => rfl, fun _ _ => rfl, fun _ _ => rfl⟩

theorem trans (h : WritesItems p m m') (h' : WritesItems p m' m'') : WritesItems p m m'' where
  rest := by
    have hset := congrArg (fun x : Model α n => { x with
      beta := m''.beta
      gamma := m''.gamma
      betaBias := m''.betaBias
      gammaBias := m''.gammaBias
      counters := m''.counters }) h.rest
    exact Eq.trans h'.rest hset
  beta j hj := (h'.beta j hj).trans (h.beta j hj)
  gamma j hj := (h'.gamma j hj).trans (h.gamma j hj)
  betaBias j hj := (h'.betaBias j hj).trans (h.betaBias j hj)
  gammaBias j hj := (h'.gammaBias j hj).trans (h.gammaBias j hj)

/-- Entries of more items may be written than are. -/
theorem mono (h : WritesItems p m m') (hpq : ∀ j, p j → q j) : WritesItems q m m' where
  rest := h.rest
  beta j hj := h.beta j (mt (hpq j) hj)
  gamma j hj := h.gamma j (mt (hpq j) hj)
  betaBias j hj := h.betaBias j (mt (hpq j) hj)
  gammaBias j hj := h.gammaBias j (mt (hpq j) hj)

theorem withCounters (p : Key → Prop) (m : Model α n) (c : Counters) :
    WritesItems p m (m.withCounters c) :=
  ⟨rfl, fun _ _ => rfl, fun _ _ => rfl, fun _ _ => rfl, fun _ _ => rfl⟩

theorem setBeta (m : Model α n) (i : Key) (v : Vec α n) : WritesItems (· = i) m (m.setBeta i v) :=
  ⟨rfl, fun _ hj => Table.get?_insert_of_ne _ hj v, fun _ _ => rfl, fun _ _ => rfl,
    fun _ _ => rfl⟩

theorem setGamma (m : Model α n) (i : Key) (v : Vec α n) : WritesItems (· = i) m (m.setGamma i v) :=
  ⟨rfl, fun _ _ => rfl, fun _ hj => Table.get?_insert_of_ne _ hj v, fun _ _ => rfl,
    fun _ _ => rfl⟩

theorem putBetaBias (m : Model α n) (i : Key) (o : Option α) :
    WritesItems (· = i) m (m.putBetaBias i o) := by
  cases o with
  | none => exact refl _ m
  | some b =>
      exact ⟨rfl, fun _ _ => rfl, fun _ _ => rfl,
        fun _ hj => Table.get?_insert_of_ne m.betaBias hj (.real b), fun _ _ => rfl⟩

theorem putGammaBias (m : Model α n) (i : Key) (o : Option α) :
    WritesItems (· = i) m (m.putGammaBias i o) := by
  cases o with
  | none => exact refl _ m
  | some b =>
      exact ⟨rfl, fun _ _ => rfl, fun _ _ => rfl, fun _ _ => rfl,
        fun _ hj => Table.get?_insert_of_ne m.gammaBias hj (.real b)⟩

end WritesItems

section

variable [Scalar α] [Operand ρ α]

/-- The step at a **user** writes the vector of the user. -/
theorem writesUsers_sweepUser (background : Mat α n n) (m : Model α n) (row : Key × List Key) :
    WritesUsers (· = row.1) m (sweepUser background m row).state := by
  rcases sweepUser_cases background m row with
    ⟨-, hstep⟩ | ⟨-, c, ⟨v, -, hstep⟩ | ⟨f, -, hstep⟩⟩
  · rw [hstep]
    exact WritesUsers.refl _ m
  · rw [hstep]
    exact (WritesUsers.withCounters _ m c).trans (WritesUsers.setTheta _ row.1 v)
  · rw [hstep]
    exact WritesUsers.withCounters _ m c

theorem writesItems_updateBeta (background : Mat α n n) (m : Model α n) (i : Key)
    (raters : List Key) (row : Row ρ) :
    WritesItems (· = i) m (updateBeta background m i raters row).state := by
  rcases updateBeta_cases background m i raters row with ⟨v, -, hstep⟩ | ⟨f, -, hstep⟩
  · rw [hstep]
    exact WritesItems.setBeta m i v
  · rw [hstep]
    exact WritesItems.refl _ m

theorem writesItems_updateGamma (m : Model α n) (i : Key) (row : Row ρ) :
    WritesItems (· = i) m (updateGamma m i row).state := by
  rcases updateGamma_cases m i row with ⟨v, -, hstep⟩ | ⟨-, hstep⟩ | ⟨f, -, hstep⟩
  · rw [hstep]
    exact WritesItems.setGamma m i v
  · rw [hstep]
    exact WritesItems.refl _ m
  · rw [hstep]
    exact WritesItems.refl _ m

theorem writesItems_updateBiases (m : Model α n) (i : Key) (row : Row ρ) :
    WritesItems (· = i) m (updateBiases m i row).state := by
  rcases updateBiases_cases m i row with
    ⟨o, o', -, -, hstep⟩ | ⟨f, -, hstep⟩ | ⟨o, f, -, -, hstep⟩
  · rw [hstep]
    exact (WritesItems.putBetaBias m i o).trans (WritesItems.putGammaBias _ i o')
  · rw [hstep]
    exact WritesItems.refl _ m
  · rw [hstep]
    exact WritesItems.putBetaBias m i o

/-- The step at an **item** writes the entries of the item. -/
theorem writesItems_sweepItem (background : Mat α n n) (rows : Table Key (Row ρ)) (m : Model α n)
    (row : Key × List Key) :
    WritesItems (· = row.1) m (sweepItem background rows m row).state := by
  rcases sweepItem_cases background rows m row with ⟨-, hstep⟩ | ⟨-, c, hstep⟩
  · rw [hstep]
    exact WritesItems.refl _ m
  · let P : Model α n → Prop := WritesItems (· = row.1) m
    have hbeta : P (updateBeta background (m.withCounters c) row.1 row.2
        ((rows.get? row.1).getD [])).state :=
      (WritesItems.withCounters _ m c).trans (writesItems_updateBeta background _ row.1 row.2 _)
    rw [hstep]
    refine Outcome.bind_invariant (P := P) (Outcome.bind_invariant (P := P) hbeta ?_) ?_
    · intro hm'
      exact hm'.trans (writesItems_updateGamma _ row.1 _)
    · intro hm'
      split
      · exact hm'.trans (writesItems_updateBiases _ row.1 _)
      · exact hm'

/-- The **rows of a sweep over users**, without what is counted at its end. -/
def sweepUsers (m : Model α n) (userItems : Table Key (List Key)) : Outcome (Model α n) :=
  Outcome.each (sweepUser (m.beta.background m.hyper.unobserved m.hyper.ridgeTheta)) m
    userItems.entries

/-- The **rows of a sweep over items**, without the global bias at its end. -/
def sweepItems (m : Model α n) (itemUsers : Table Key (List Key)) (rows : Table Key (Row ρ)) :
    Outcome (Model α n) :=
  Outcome.each (sweepItem (m.theta.background m.hyper.unobserved m.hyper.ridgeBeta) rows) m
    itemUsers.entries

omit [Operand ρ α] in
theorem updateUsers_eq (m : Model α n) (userItems : Table Key (List Key)) :
    m.updateUsers userItems = (m.sweepUsers userItems).bind fun m =>
      .done (m.count .skippedUsers (strangers userItems m.theta)) := rfl

theorem updateItems_eq (m : Model α n) (itemUsers : Table Key (List Key))
    (rows : Table Key (Row ρ)) :
    m.updateItems itemUsers rows = ((m.sweepItems itemUsers rows).bind fun m =>
      m.updateGlobal itemUsers.keys rows).bind fun m =>
        .done (m.count .skippedItems (strangers itemUsers m.beta)) := rfl

omit [Operand ρ α] in
/-- The rows of a sweep that goes through write the vectors of **their own users**. -/
theorem writesUsers_sweepUsers {m : Model α n} {userItems : Table Key (List Key)}
    (hf : (m.sweepUsers userItems).fault = none) :
    WritesUsers (· ∈ userItems) m (m.sweepUsers userItems).state := by
  refine Outcome.each_prefix (fun past m' => WritesUsers (· ∈ past.map Prod.fst) m m')
    (WritesUsers.refl _ m) hf ?_
  intro past row m' _ hm' _
  have hstep := writesUsers_sweepUser (m.beta.background m.hyper.unobserved m.hyper.ridgeTheta) m'
    row
  rw [List.map_append]
  exact (hm'.mono fun u hu => List.mem_append_left _ hu).trans
    (hstep.mono fun u hu => List.mem_append_right _ (List.mem_singleton.2 hu))

/-- The rows of a sweep that goes through write entries of **their own items**. -/
theorem writesItems_sweepItems {m : Model α n} {itemUsers : Table Key (List Key)}
    {rows : Table Key (Row ρ)} (hf : (m.sweepItems itemUsers rows).fault = none) :
    WritesItems (· ∈ itemUsers) m (m.sweepItems itemUsers rows).state := by
  refine Outcome.each_prefix (fun past m' => WritesItems (· ∈ past.map Prod.fst) m m')
    (WritesItems.refl _ m) hf ?_
  intro past row m' _ hm' _
  have hstep := writesItems_sweepItem (m.theta.background m.hyper.unobserved m.hyper.ridgeBeta) rows
    m' row
  rw [List.map_append]
  exact (hm'.mono fun j hj => List.mem_append_left _ hj).trans
    (hstep.mono fun j hj => List.mem_append_right _ (List.mem_singleton.2 hj))

end

end Model

end CoEmbed
