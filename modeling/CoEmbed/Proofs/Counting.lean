import CoEmbed.Proofs.Operation

/-!
# Counting

What a registration or a sweep counts can be told from the tables that it is given and from who is
registered: which keys are new, which rows are swept, and which of the keys in them have no vector.

* `Counters.Shows` — what counters show.
* `Roll`, `Roll.enrol` — who is registered, and who is after an operation.
* `Meeting`, `Roll.meets` — what is met in a sweep.
* `tally` — what is counted of what is met.
* `Model.shows_sweepUser`, `Model.shows_sweepItem` — what is counted of one row.
* `Model.shows_updateUsers`, `Model.shows_updateItems`, `Model.shows_registerUsers`,
  `Model.shows_registerItems` — what is counted of whole tables, and of registrations.

## Row convention

The rows of keys that are not registered are counted at the end of a sweep, and what is listed in
them is not looked at.
-/

namespace CoEmbed

variable {ρ α : Type} {n : ℕ}

/-! ### Counters -/

theorem Counted.name_injective : Function.Injective Counted.name := by
  intro a b h
  cases a <;> cases b <;> first | rfl | exact absurd h (by decide)

/-- The counters **show a number** for everything that can be counted. -/
def Counters.Shows (c : Counters) (census : Counted → ℤ) : Prop :=
  ∀ what, c.get? what.name = some (census what)

theorem Counters.shows_complete : Counters.complete.Shows 0 := by
  intro what
  cases what <;> rfl

/-- Counting adds to **one counter** and leaves the others alone. -/
theorem Counters.Shows.add {c : Counters} {census : Counted → ℤ} (h : c.Shows census)
    (what : Counted) (k : ℕ) : (c.add what k).Shows (census + Pi.single what (k : ℤ)) := by
  intro other
  rw [Counters.add, addNamed, h what]
  dsimp only
  rw [Table.get?_insert, Pi.add_apply]
  by_cases heq : other = what
  · subst heq
    rw [if_pos rfl, Pi.single_eq_same]
  · rw [if_neg fun hname => heq (Counted.name_injective hname), Pi.single_eq_of_ne heq, add_zero]
    exact h other

/-! ### Meetings -/

/-- What is **met in a sweep**. -/
inductive Meeting where
  /-- An item that is listed in the row of a registered user. -/
  | listedItem
  /-- Such an item that is not registered. -/
  | staleItem
  /-- A user who is listed in the row of a registered item. -/
  | listedUser
  /-- Such a user who is not registered. -/
  | staleUser
  /-- A neighbour of a registered item that is not registered. -/
  | staleNeighbor
  /-- A user who has a row and is not registered. -/
  | strangeUser
  /-- An item that has a row and is not registered. -/
  | strangeItem
  deriving DecidableEq, Repr

/-- What is **counted** of what is met. -/
def tally (met : Meeting → List Key) : Counted → ℤ
  | .users | .items => 0
  | .thetaTotal => (met .listedItem).length
  | .thetaTrainable => (met .listedItem).length - (met .staleItem).length
  | .betaTotal => (met .listedUser).length
  | .betaTrainable => (met .listedUser).length - (met .staleUser).length
  | .skippedItems =>
    (met .staleItem).length + (met .staleNeighbor).length + (met .strangeItem).length
  | .skippedUsers => (met .staleUser).length + (met .strangeUser).length

theorem tally_nil : tally (fun _ => []) = 0 := by
  funext what
  cases what <;> rfl

/-- What is met in two places is **counted together**. -/
theorem tally_append (met met' : Meeting → List Key) :
    tally (fun what => met what ++ met' what) = tally met + tally met' := by
  funext what
  cases what <;> simp only [tally, List.length_append, Pi.add_apply, Nat.cast_add] <;> ring

/-- The **users and the items** that are registered. -/
structure Roll where
  users : Finset Key
  items : Finset Key
  deriving DecidableEq

namespace Roll

/-- Who is registered **after an operation**. -/
def enrol (r : Roll) : Operation ρ → Roll
  | .registerUsers users => { r with users := r.users ∪ users.toFinset }
  | .registerHistories histories => { r with users := r.users ∪ histories.domain }
  | .registerItems items => { r with items := r.items ∪ items.toFinset }
  | .updateUsers _ | .updateItems _ _ | .validate _ _ | .predict _ _ | .preferenceLoss _
  | .neighborLoss _ | .ridgeLoss | .loss _ => r

/-- How many are registered. -/
def size (r : Roll) : Counted → ℤ :=
  Pi.single .users (r.users.card : ℤ) + Pi.single .items (r.items.card : ℤ)

theorem size_sub_of_users (r : Roll) (users : Finset Key) :
    (⟨users, r.items⟩ : Roll).size - r.size
      = Pi.single .users ((users.card : ℤ) - r.users.card) := by
  rw [size, size, add_sub_add_right_eq_sub, Pi.single_sub]

theorem size_sub_of_items (r : Roll) (items : Finset Key) :
    (⟨r.users, items⟩ : Roll).size - r.size
      = Pi.single .items ((items.card : ℤ) - r.items.card) := by
  rw [size, size, add_sub_add_left_eq_sub, Pi.single_sub]

/-- What is met in the **row of a user**. -/
def meetsUser (r : Roll) (row : Key × List Key) : Meeting → List Key
  | .listedItem => if row.1 ∈ r.users then row.2 else []
  | .staleItem => if row.1 ∈ r.users then row.2.filter fun i => decide (i ∉ r.items) else []
  | .strangeUser => if row.1 ∈ r.users then [] else [row.1]
  | .listedUser | .staleUser | .staleNeighbor | .strangeItem => []

/-- What is met in the **row of an item** and among its neighbours. -/
def meetsItem (r : Roll) (rows : Table Key (Row ρ)) (row : Key × List Key) : Meeting → List Key
  | .listedUser => if row.1 ∈ r.items then row.2 else []
  | .staleUser => if row.1 ∈ r.items then row.2.filter fun u => decide (u ∉ r.users) else []
  | .staleNeighbor => if row.1 ∈ r.items then
      (((rows.get? row.1).getD []).map Prod.fst).filter fun j => decide (j ∉ r.items) else []
  | .strangeItem => if row.1 ∈ r.items then [] else [row.1]
  | .listedItem | .staleItem | .strangeUser => []

/-- What is met in **an operation**. -/
def meets (r : Roll) : Operation ρ → Meeting → List Key
  | .updateUsers userItems, what => userItems.entries.flatMap fun row => r.meetsUser row what
  | .updateItems itemUsers rows, what =>
    itemUsers.entries.flatMap fun row => r.meetsItem rows row what
  | .registerUsers _, _ | .registerHistories _, _ | .registerItems _, _ | .validate _ _, _
  | .predict _ _, _ | .preferenceLoss _, _ | .neighborLoss _, _ | .ridgeLoss, _ | .loss _, _ => []

end Roll

/-- What is counted of **a row** that lists some keys, so many of which are stale. -/
def rowCount (total trainable skipped : Counted) (listed stale : ℕ) : Counted → ℤ :=
  Pi.single total (listed : ℤ) + Pi.single trainable ((listed : ℤ) - stale)
    + Pi.single skipped (stale : ℤ)

section

variable {r : Roll} {row : Key × List Key}

theorem tally_meetsUser_of_mem (h : row.1 ∈ r.users) :
    tally (r.meetsUser row) = rowCount .thetaTotal .thetaTrainable .skippedItems row.2.length
      (row.2.filter fun i => decide (i ∉ r.items)).length := by
  funext what
  cases what <;> simp [tally, Roll.meetsUser, rowCount, h]

theorem tally_meetsUser_of_not_mem (h : row.1 ∉ r.users) :
    tally (r.meetsUser row) = Pi.single .skippedUsers 1 := by
  funext what
  cases what <;> simp [tally, Roll.meetsUser, h]

theorem tally_meetsItem_of_mem (h : row.1 ∈ r.items) (rows : Table Key (Row ρ)) :
    tally (r.meetsItem rows row) = rowCount .betaTotal .betaTrainable .skippedUsers row.2.length
        (row.2.filter fun u => decide (u ∉ r.users)).length
      + Pi.single .skippedItems ((((rows.get? row.1).getD []).filter
          fun e => decide (e.1 ∉ r.items)).length : ℤ) := by
  funext what
  cases what <;> simp [tally, Roll.meetsItem, rowCount, h, List.filter_map, Function.comp_def]

theorem tally_meetsItem_of_not_mem (h : row.1 ∉ r.items) (rows : Table Key (Row ρ)) :
    tally (r.meetsItem rows row) = Pi.single .skippedItems 1 := by
  funext what
  cases what <;> simp [tally, Roll.meetsItem, h]

end

/-! ### Rows -/

namespace Model

variable {census : Counted → ℤ}

/-- The users and the items that are **registered with a model**. -/
def roll (m : Model α n) : Roll := ⟨m.theta.domain, m.beta.domain⟩

theorem roll_of_frame {m m' : Model α n} (h : m.Frame m') : m'.roll = m.roll := by
  rw [roll, roll, Table.domain, Table.domain, h.theta, h.beta]
  rfl

/-- A row is counted **by the keys that it lists** and those among them that have no vector. -/
theorem shows_countRow {m : Model α n} (h : m.counters.Shows census)
    (total trainable skipped : Counted) (ks : List Key) (W : Factors α n) :
    (m.countRow total trainable skipped ks W).counters.Shows (census
      + rowCount total trainable skipped ks.length
          (ks.filter fun k => decide (k ∉ W.domain)).length) := by
  have hsplit := List.length_eq_length_filter_add (l := ks) fun k => decide (k ∈ W)
  have hstale : (ks.filter fun k => decide (k ∉ W.domain)).length
      = (ks.filter fun k => !decide (k ∈ W)).length := by
    refine congrArg List.length (List.filter_congr fun k _ => ?_)
    rw [← decide_not]
    exact decide_eq_decide.2 (not_congr Table.mem_domain)
  rw [← hstale] at hsplit
  set found := (ks.filter fun k => decide (k ∈ W)).length
  set stale := (ks.filter fun k => decide (k ∉ W.domain)).length
  have hfound : (found : ℤ) = (ks.length : ℤ) - stale := by omega
  have hskipped : ks.length - found = stale := by omega
  have hcounted := ((h.add total ks.length).add trainable found).add skipped stale
  rw [hfound, add_assoc, add_assoc, ← add_assoc (Pi.single total _)] at hcounted
  rw [countRow, hskipped]
  exact hcounted

/-- Rows that are each counted by what is met in them are counted **by all that is met**; those that
are passed over are counted at the end. -/
theorem shows_rows {m : Model α n} {step : Model α n → Key × List Key → Outcome (Model α n)}
    {rows : List (Key × List Key)} (I : Model α n → Prop)
    (met : Key × List Key → Meeting → List Key)
    (skipped : Counted) (p : Key → Bool)
    (hstep : ∀ m, ∀ row ∈ rows, ∀ census, I m → m.counters.Shows census →
      I (step m row).state ∧ (step m row).state.counters.Shows
        (census + tally (met row) - Pi.single skipped ([row.1].countP p : ℤ)))
    (hI : I m) (h : m.counters.Shows census) (hf : (Outcome.each step m rows).fault = none) :
    I (Outcome.each step m rows).state ∧ (Outcome.each step m rows).state.counters.Shows
      (census + tally (fun what => rows.flatMap fun row => met row what)
        - Pi.single skipped ((rows.map Prod.fst).countP p : ℤ)) := by
  refine Outcome.each_prefix (fun past m => I m ∧ m.counters.Shows
    (census + tally (fun what => past.flatMap fun row => met row what)
      - Pi.single skipped ((past.map Prod.fst).countP p : ℤ))) ?_ hf ?_
  · refine ⟨hI, ?_⟩
    simp only [List.flatMap_nil, tally_nil, List.map_nil, List.countP_nil, Nat.cast_zero,
      Pi.single_zero, add_zero, sub_zero]
    exact h
  · rintro past row m hrow ⟨hI, h⟩ -
    obtain ⟨hnext, hcounted⟩ := hstep m row hrow _ hI h
    refine ⟨hnext, ?_⟩
    simp only [List.flatMap_append, List.flatMap_singleton, tally_append, List.map_append,
      List.map_singleton, List.countP_append, Nat.cast_add, Pi.single_add]
    rw [sub_add_eq_add_sub, add_assoc, sub_sub] at hcounted
    exact hcounted

/-- What a sweep counts at its end are the rows of **keys that are not registered**. -/
theorem strangers_eq {ν : Type} (t : Table Key ν) (W : Factors α n) :
    strangers t W = (t.entries.map Prod.fst).countP fun k => decide (k ∉ W.domain) := by
  rw [strangers, ← List.countP_eq_length_filter]
  exact List.countP_congr fun k _ => by simp

section

variable [Scalar α]

/-- What is counted at the row of **a user**. -/
theorem shows_sweepUser {m : Model α n} (background : Mat α n n) (row : Key × List Key)
    (h : m.counters.Shows census) :
    (sweepUser background m row).state.counters.Shows (census + tally (m.roll.meetsUser row)
      - Pi.single .skippedUsers ([row.1].countP fun k => decide (k ∉ m.roll.users) : ℤ)) := by
  rw [List.countP_singleton]
  by_cases hu : row.1 ∈ m.theta
  · have hmem : row.1 ∈ m.roll.users := Table.mem_domain.2 hu
    rw [tally_meetsUser_of_mem hmem, if_neg (by simpa using hmem), Nat.cast_zero, Pi.single_zero,
      sub_zero, sweepUser, if_pos hu]
    dsimp only
    have hcounted := shows_countRow h .thetaTotal .thetaTrainable .skippedItems row.2 m.beta
    split <;> exact hcounted
  · have hmem : row.1 ∉ m.roll.users := mt Table.mem_domain.1 hu
    rw [tally_meetsUser_of_not_mem hmem, if_pos (decide_eq_true hmem), Nat.cast_one, sweepUser,
      if_neg hu, add_sub_cancel_right]
    exact h

/-- What a **sweep over users** counts. -/
theorem shows_updateUsers {m : Model α n} (userItems : Table Key (List Key))
    (h : m.counters.Shows census) (hf : (m.updateUsers userItems).fault = none) :
    (m.updateUsers userItems).state.counters.Shows
      (census + tally (m.roll.meets (.updateUsers userItems : Operation ρ))) := by
  let background := m.beta.background m.hyper.unobserved m.hyper.ridgeTheta
  obtain ⟨hrows, -⟩ := Outcome.bind_done_iff.1 hf
  obtain ⟨hframe, hcounted⟩ := shows_rows (fun m' => m.Frame m') m.roll.meetsUser .skippedUsers
    (fun k => decide (k ∉ m.roll.users)) (fun m' row hrow census hframe h => by
      refine ⟨hframe.trans (keeps_sweepUser background m' row).frame, ?_⟩
      rw [← roll_of_frame hframe]
      exact shows_sweepUser background row h) (Frame.refl m) h hrows
  have htheta : (Outcome.each (sweepUser background) m userItems.entries).state.theta.domain
      = m.roll.users := congrArg Roll.users (roll_of_frame hframe)
  have hstrange := hcounted.add .skippedUsers (strangers userItems
    (Outcome.each (sweepUser background) m userItems.entries).state.theta)
  rw [strangers_eq, htheta, sub_add_cancel] at hstrange
  rw [updateUsers, Outcome.bind_of_done hrows, strangers_eq, htheta]
  exact hstrange

variable [Operand ρ α]

/-! The updates of an item count nothing themselves. -/

theorem counters_updateBeta (background : Mat α n n) (m : Model α n) (i : Key) (raters : List Key)
    (row : Row ρ) : (updateBeta background m i raters row).state.counters = m.counters := by
  rcases updateBeta_cases background m i raters row with ⟨v, -, hstep⟩ | ⟨f, -, hstep⟩ <;>
    rw [hstep] <;> rfl

theorem counters_updateGamma (m : Model α n) (i : Key) (row : Row ρ) :
    (updateGamma m i row).state.counters = m.counters := by
  rcases updateGamma_cases m i row with ⟨v, -, hstep⟩ | ⟨-, hstep⟩ | ⟨f, -, hstep⟩ <;>
    rw [hstep] <;> rfl

theorem counters_updateBiases (m : Model α n) (i : Key) (row : Row ρ) :
    (updateBiases m i row).state.counters = m.counters := by
  have hbeta : ∀ o, (m.putBetaBias i o).counters = m.counters := by
    rintro (_ | b) <;> rfl
  have hgamma : ∀ (m : Model α n) o, (m.putGammaBias i o).counters = m.counters := by
    rintro m (_ | b) <;> rfl
  rcases updateBiases_cases m i row with
    ⟨o, o', -, -, hstep⟩ | ⟨f, -, hstep⟩ | ⟨o, f, -, -, hstep⟩ <;> rw [hstep]
  · exact (hgamma _ o').trans (hbeta o)
  · rfl
  · exact hbeta o

theorem counters_updateGlobal (m : Model α n) (items : List Key) (rows : Table Key (Row ρ)) :
    (updateGlobal m items rows).state.counters = m.counters := by
  by_cases hg : m.hyper.updateGlobalBias = true
  · rcases updateGlobal_cases m items rows hg with ⟨b, -, hstep⟩ | ⟨-, hstep⟩ | ⟨f, -, hstep⟩ <;>
      rw [hstep] <;> rfl
  · rw [updateGlobal, if_neg hg]
    rfl

/-- What is counted at the row of **an item**. -/
theorem shows_sweepItem {m : Model α n} (haligned : m.Aligned) (background : Mat α n n)
    (rows : Table Key (Row ρ)) (row : Key × List Key) (h : m.counters.Shows census) :
    (sweepItem background rows m row).state.counters.Shows
      (census + tally (m.roll.meetsItem rows row)
        - Pi.single .skippedItems ([row.1].countP fun k => decide (k ∉ m.roll.items) : ℤ)) := by
  rw [List.countP_singleton]
  by_cases hi : row.1 ∈ m.beta
  · have hmem : row.1 ∈ m.roll.items := Table.mem_domain.2 hi
    have hstale : (((rows.get? row.1).getD []).filter fun e => decide (e.1 ∉ m.roll.items))
        = ((rows.get? row.1).getD []).filter fun e => decide (e.1 ∉ m.gamma) := by
      refine List.filter_congr fun e _ => decide_eq_decide.2 (not_congr ?_)
      rw [Table.mem_iff, haligned.gamma, ← Table.mem_iff]
      exact Table.mem_domain
    have hcounted := (shows_countRow h .betaTotal .betaTrainable .skippedUsers row.2 m.theta).add
      .skippedItems (((rows.get? row.1).getD []).filter fun e => decide (e.1 ∉ m.gamma)).length
    rw [tally_meetsItem_of_mem hmem, hstale, if_neg (by simpa using hmem), Nat.cast_zero,
      Pi.single_zero, sub_zero, ← add_assoc, sweepItem, if_pos hi]
    dsimp only
    refine Outcome.bind_invariant (P := fun m' : Model α n => m'.counters.Shows _)
      (Outcome.bind_invariant (P := fun m' : Model α n => m'.counters.Shows _) ?_ fun h => ?_)
      fun h => ?_
    · rw [counters_updateBeta]
      exact hcounted
    · rw [counters_updateGamma]
      exact h
    · split
      · rw [counters_updateBiases]
        exact h
      · exact h
  · have hmem : row.1 ∉ m.roll.items := mt Table.mem_domain.1 hi
    rw [tally_meetsItem_of_not_mem hmem, if_pos (decide_eq_true hmem), Nat.cast_one, sweepItem,
      if_neg hi, add_sub_cancel_right]
    exact h

/-- What a **sweep over items** counts. -/
theorem shows_updateItems {m : Model α n} (haligned : m.Aligned) (itemUsers : Table Key (List Key))
    (rows : Table Key (Row ρ)) (h : m.counters.Shows census)
    (hf : (m.updateItems itemUsers rows).fault = none) :
    (m.updateItems itemUsers rows).state.counters.Shows
      (census + tally (m.roll.meets (.updateItems itemUsers rows))) := by
  let background := m.theta.background m.hyper.unobserved m.hyper.ridgeBeta
  obtain ⟨hdone, -⟩ := Outcome.bind_done_iff.1 hf
  obtain ⟨hrows, -⟩ := Outcome.bind_done_iff.1 hdone
  obtain ⟨hframe, hcounted⟩ := shows_rows (fun m' => m.Frame m') (m.roll.meetsItem rows)
    .skippedItems (fun k => decide (k ∉ m.roll.items)) (fun m' row hrow census hframe h => by
      have haligned' := haligned.of_frame hframe
      refine ⟨hframe.trans (keeps_sweepItem background rows haligned' row).frame, ?_⟩
      rw [← roll_of_frame hframe]
      exact shows_sweepItem haligned' background rows row h) (Frame.refl m) h hrows
  let swept := (Outcome.each (sweepItem background rows) m itemUsers.entries).state
  have hglobal := (keeps_updateGlobal swept itemUsers.keys rows).frame
  have hbeta : (updateGlobal swept itemUsers.keys rows).state.beta.domain = m.roll.items :=
    congrArg Roll.items (roll_of_frame (hframe.trans hglobal))
  rw [← counters_updateGlobal _ itemUsers.keys rows] at hcounted
  have hstrange := hcounted.add .skippedItems
    (strangers itemUsers (updateGlobal swept itemUsers.keys rows).state.beta)
  rw [strangers_eq, hbeta, sub_add_cancel] at hstrange
  rw [updateItems, Outcome.bind_of_done hdone, Outcome.bind_of_done hrows, strangers_eq, hbeta]
  exact hstrange

end

/-! ### Registrations -/

section

variable [Scalar α]

/-- A table has **as many keys as entries**. -/
theorem card_domain {ν : Type} (t : Table Key ν) : t.domain.card = t.size := by
  rw [Table.domain, List.toFinset_card_of_nodup t.nodup_keys]
  exact List.length_map _

/-- Vectors are drawn for **the keys of a list** that have none. -/
theorem domain_drawn [Machine] (init : VectorInit α) (W : Factors α n) (ks : List Key)
    (source : Source) : (drawn init W ks source).1.domain = W.domain ∪ ks.toFinset := by
  ext k
  rw [Table.mem_domain, drawn, Table.mem_register, Finset.mem_union, Table.mem_domain,
    List.mem_toFinset]

theorem size_drawn_sub [Machine] (init : VectorInit α) (W : Factors α n) (ks : List Key)
    (source : Source) : (((drawn init W ks source).1.size - W.size : ℕ) : ℤ)
      = ((W.domain ∪ ks.toFinset).card : ℤ) - W.domain.card := by
  rw [← card_domain, ← card_domain, domain_drawn,
    Nat.cast_sub (Finset.card_le_card Finset.subset_union_left)]

/-- What **registering users** counts are those that are new. -/
theorem shows_registerUsers [Machine] {m : Model α n} (ks : List Key) (h : m.counters.Shows census)
    (hf : (m.registerUsers ks).fault = none) :
    (m.registerUsers ks).state.roll = ⟨m.roll.users ∪ ks.toFinset, m.roll.items⟩ ∧
      (m.registerUsers ks).state.counters.Shows (census
        + ((⟨m.roll.users ∪ ks.toFinset, m.roll.items⟩ : Roll).size - m.roll.size)) := by
  rw [Roll.size_sub_of_users]
  rw [registerUsers] at hf ⊢
  split at hf
  · next hcan =>
      rw [if_pos hcan]
      refine ⟨Roll.mk.injEq .. ▸ ⟨domain_drawn _ _ _ _, rfl⟩, ?_⟩
      have hcounted := h.add .users ((drawn m.hyper.init m.theta ks m.source).1.size - m.theta.size)
      rw [size_drawn_sub] at hcounted
      exact hcounted
  · cases hf

/-- What **registering items** counts are those that are new. -/
theorem shows_registerItems [Machine] {m : Model α n} (ks : List Key) (h : m.counters.Shows census)
    (hf : (m.registerItems ks).fault = none) :
    (m.registerItems ks).state.roll = ⟨m.roll.users, m.roll.items ∪ ks.toFinset⟩ ∧
      (m.registerItems ks).state.counters.Shows (census
        + ((⟨m.roll.users, m.roll.items ∪ ks.toFinset⟩ : Roll).size - m.roll.size)) := by
  rw [Roll.size_sub_of_items]
  rw [registerItems] at hf ⊢
  split at hf
  · next hcan =>
      rw [if_pos hcan]
      refine ⟨Roll.mk.injEq .. ▸ ⟨rfl, domain_drawn _ _ _ _⟩, ?_⟩
      have hcounted := h.add .items ((drawn m.hyper.init m.beta ks m.source).1.size - m.beta.size)
      rw [size_drawn_sub] at hcounted
      exact hcounted
  · cases hf

end

end Model

end CoEmbed
