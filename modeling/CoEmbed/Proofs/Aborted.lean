import CoEmbed.Proofs.Exact.Update
import CoEmbed.Proofs.Faults
import CoEmbed.Proofs.Writes
import CoEmbed.Recommender

/-!
# Aborted Sweeps

A sweep that meets a system without a solution ends there. What it leaves behind is what the sweep
over the rows before would have left, and of the item at which it ended perhaps a new vector.

* `Model.sweepItem_of_fault` — the two places at which the row of an item ends a sweep.
* `Model.updateUsers_of_fault`, `Model.updateItems_of_fault` — what is done at the end of a sweep
  is left out.
* `Model.UsersStoppedAt`, `Model.ItemsStoppedAt` — what is left behind.
* `aborted_sweeps` — every sweep that is aborted leaves that.

## Fault convention

Only a system can have the defect of a system: a weight that cannot be read ends a sweep as well,
but with a fault of another family.
-/

namespace CoEmbed

variable {ρ α : Type} {n : ℕ}

namespace Model

section

variable [Scalar α] [Operand ρ α]

/-! ### Where a sweep is aborted -/

section

variable [Operand.Plain ρ α]

/-- The update of the biases **solves no system**. -/
theorem updateBiases_fault_ne (m : Model α n) (i : Key) (row : Row ρ) (d : SystemDefect) :
    (updateBiases m i row).fault ≠ some (.system d) := by
  have hk : Fault.Kind.ofReading .system = false := rfl
  intro hf
  rcases updateBiases_cases m i row with
    ⟨o, o', -, -, hstep⟩ | ⟨f, hbias, hstep⟩ | ⟨o, f, -, hbias, hstep⟩
  · rw [hstep] at hf
    cases hf
  · rw [hstep] at hf
    obtain rfl : f = .system d := Option.some.inj hf
    exact avoids_newBias hk i row _ _ _ _ _ hbias rfl
  · rw [hstep] at hf
    obtain rfl : f = .system d := Option.some.inj hf
    exact avoids_newBias hk i row _ _ _ _ _ hbias rfl

/-- Neither does the update of the **global bias**. -/
theorem updateGlobal_fault_ne (m : Model α n) (items : List Key) (rows : Table Key (Row ρ))
    (d : SystemDefect) : (updateGlobal m items rows).fault ≠ some (.system d) := by
  have hk : Fault.Kind.ofReading .system = false := rfl
  intro hf
  by_cases hu : m.hyper.updateGlobalBias = true
  · rcases updateGlobal_cases m items rows hu with ⟨b, -, hstep⟩ | ⟨-, hstep⟩ | ⟨f, hbias, hstep⟩
    · rw [hstep] at hf
      cases hf
    · rw [hstep] at hf
      cases hf
    · rw [hstep] at hf
      obtain rfl : f = .system d := Option.some.inj hf
      exact avoids_newGlobalBias hk items rows _ _ _ _ _ hbias rfl
  · rw [updateGlobal, if_neg hu] at hf
    cases hf

end

/-- The vector that an item gets from **its system**. -/
def solveBeta (background : Mat α n n) (rows : Table Key (Row ρ)) (m : Model α n)
    (row : Key × List Key) : Except Fault (Vec α n) :=
  newBeta row.1 row.2 ((rows.get? row.1).getD []) m.theta m.gamma m.seenBetaBias m.seenGammaBias
    background m.hyper.unobserved m.hyper.observed m.globalBias

/-- The vector that an item gets from its system **as a neighbour**, if it has one. -/
def solveGamma (rows : Table Key (Row ρ)) (m : Model α n) (i : Key) :
    Except Fault (Option (Vec α n)) :=
  newGamma i ((rows.get? i).getD []) m.beta m.seenBetaBias m.seenGammaBias m.hyper.ridgeGamma
    m.globalBias

variable [Operand.Plain ρ α]

/-- The row of an item ends a sweep at **one of its two systems**: at that of its vector, and then
nothing has been written, or at that of its vector as a neighbour, and then its vector has. -/
theorem sweepItem_of_fault {background : Mat α n n} {rows : Table Key (Row ρ)} {m : Model α n}
    {row : Key × List Key} {d : SystemDefect}
    (hf : (sweepItem background rows m row).fault = some (.system d)) :
    row.1 ∈ m.beta ∧ ∃ c,
      (solveBeta background rows m row = .error (.system d) ∧
        (sweepItem background rows m row).state = m.withCounters c) ∨
      (∃ v, solveBeta background rows m row = .ok v ∧
        solveGamma rows (m.setBeta row.1 v) row.1 = .error (.system d) ∧
        (sweepItem background rows m row).state = (m.setBeta row.1 v).withCounters c) := by
  rcases sweepItem_cases background rows m row with ⟨-, hstep⟩ | ⟨hi, c, hstep⟩
  · rw [hstep] at hf
    cases hf
  refine ⟨hi, c, ?_⟩
  -- What comes after the systems cannot have such a fault.
  have hrest : ∀ m' : Model α n, (if m'.hyper.useBias then
      updateBiases m' row.1 ((rows.get? row.1).getD []) else .done m').fault
        ≠ some (.system d) := by
    intro m'
    split
    · exact updateBiases_fault_ne m' row.1 _ d
    · intro h
      cases h
  rw [hstep] at hf ⊢
  rcases updateBeta_cases background (m.withCounters c) row.1 row.2 ((rows.get? row.1).getD []) with
    ⟨v, hv, hbeta⟩ | ⟨f, hrejected, hbeta⟩
  · right
    refine ⟨v, hv, ?_⟩
    rw [hbeta, Outcome.bind_of_done (o := .done _) rfl] at hf ⊢
    rcases updateGamma_cases ((m.withCounters c).setBeta row.1 v) row.1
      ((rows.get? row.1).getD []) with ⟨w, -, hgamma⟩ | ⟨-, hgamma⟩ | ⟨f, hrejected, hgamma⟩
    · rw [Outcome.done, hgamma, Outcome.bind_of_done rfl] at hf
      exact absurd hf (hrest _)
    · rw [Outcome.done, hgamma, Outcome.bind_of_done rfl] at hf
      exact absurd hf (hrest _)
    · rw [Outcome.done, hgamma, Outcome.bind_of_fault rfl] at hf ⊢
      obtain rfl : f = .system d := Option.some.inj hf
      exact ⟨hrejected, rfl⟩
  · left
    rw [hbeta, Outcome.bind_of_fault (o := .failed _ _) rfl,
      Outcome.bind_of_fault (o := .failed _ _) rfl] at hf ⊢
    obtain rfl : f = .system d := Option.some.inj hf
    exact ⟨hrejected, rfl⟩

omit [Operand ρ α] [Operand.Plain ρ α] in
/-- A sweep over users is aborted **in one of its rows**: what is counted at its end is left out. -/
theorem updateUsers_of_fault {m : Model α n} {userItems : Table Key (List Key)} {f : Fault}
    (hf : (m.updateUsers userItems).fault = some f) :
    m.updateUsers userItems = m.sweepUsers userItems := by
  rw [updateUsers_eq] at hf ⊢
  cases hrows : (m.sweepUsers userItems).fault with
  | some f' => exact Outcome.bind_of_fault hrows _
  | none =>
      rw [Outcome.bind_of_done hrows] at hf
      cases hf

/-- A sweep over items is aborted in one of its rows: **the global bias** is not put in place. -/
theorem updateItems_of_fault {m : Model α n} {itemUsers : Table Key (List Key)}
    {rows : Table Key (Row ρ)} {d : SystemDefect}
    (hf : (m.updateItems itemUsers rows).fault = some (.system d)) :
    m.updateItems itemUsers rows = m.sweepItems itemUsers rows := by
  rw [updateItems_eq] at hf ⊢
  cases hrows : (m.sweepItems itemUsers rows).fault with
  | some f' => rw [Outcome.bind_of_fault hrows, Outcome.bind_of_fault hrows]
  | none =>
      rw [Outcome.bind_of_done hrows] at hf
      cases hglobal : ((m.sweepItems itemUsers rows).state.updateGlobal itemUsers.keys rows).fault
        with
      | some f' =>
          rw [Outcome.bind_of_fault hglobal] at hf
          exact absurd hf (updateGlobal_fault_ne _ itemUsers.keys rows d)
      | none =>
          rw [Outcome.bind_of_done hglobal] at hf
          cases hf

end

/-! ### What an aborted sweep leaves behind -/

section

variable [Scalar α]

/-- What a sweep over users leaves behind that ended **at a row**: what a sweep over the rows
before it would have written, and nothing else. -/
structure UsersStoppedAt (m : Model α n) (past : Table Key (List Key)) (row : Key × List Key)
    (d : SystemDefect) (after : Model α n) : Prop where
  registered : row.1 ∈ m.theta
  rejected : newTheta row.2 m.beta (m.beta.background m.hyper.unobserved m.hyper.ridgeTheta)
    m.hyper.unobserved m.hyper.observed = .error (.system d)
  past_done : (m.updateUsers past).fault = none
  theta : after.theta = (m.updateUsers past).state.theta
  writes : WritesUsers (· ∈ past) m after

variable [Operand ρ α]

/-- What a sweep over items leaves behind that ended **at a row**: what the rows before it write,
of the item itself perhaps its vector, and nothing else. -/
structure ItemsStoppedAt (m : Model α n) (past : Table Key (List Key)) (rows : Table Key (Row ρ))
    (row : Key × List Key) (d : SystemDefect) (after : Model α n) : Prop where
  registered : row.1 ∈ m.beta
  past_done : (m.sweepItems past rows).fault = none
  stopped :
    let background := m.theta.background m.hyper.unobserved m.hyper.ridgeBeta
    let before := (m.sweepItems past rows).state
    (solveBeta background rows before row = .error (.system d) ∧
      after = before.withCounters after.counters) ∨
    (∃ v, solveBeta background rows before row = .ok v ∧
      solveGamma rows (before.setBeta row.1 v) row.1 = .error (.system d) ∧
      after = (before.setBeta row.1 v).withCounters after.counters)
  writes : WritesItems (fun j => j ∈ past ∨ j = row.1) m after

omit [Operand ρ α] in
/-- A system that ends a sweep over users **at a row** leaves that behind. -/
theorem usersStoppedAt {m : Model α n} {past : Table Key (List Key)} {row : Key × List Key}
    {d : SystemDefect} (hnew : row.1 ∉ past) (hdone : (m.sweepUsers past).fault = none)
    (hfail : (sweepUser (m.beta.background m.hyper.unobserved m.hyper.ridgeTheta)
      (m.sweepUsers past).state row).fault = some (.system d)) :
    m.UsersStoppedAt past row d (sweepUser
      (m.beta.background m.hyper.unobserved m.hyper.ridgeTheta)
      (m.sweepUsers past).state row).state := by
  have hwrites := writesUsers_sweepUsers hdone
  have hpast := updateUsers_eq m past
  rw [Outcome.bind_of_done hdone] at hpast
  generalize (m.sweepUsers past).state = before at hwrites hfail hpast ⊢
  rcases sweepUser_cases (m.beta.background m.hyper.unobserved m.hyper.ridgeTheta) before row with
    ⟨-, hstep⟩ | ⟨hu, c, ⟨v, -, hstep⟩ | ⟨f, hrejected, hstep⟩⟩
  · rw [hstep] at hfail
    cases hfail
  · rw [hstep] at hfail
    cases hfail
  · rw [hstep] at hfail ⊢
    obtain rfl : f = .system d := Option.some.inj hfail
    have hbeta : before.beta = m.beta := by rw [hwrites.rest]
    have hhyper : before.hyper = m.hyper := by rw [hwrites.rest]
    rw [hbeta, hhyper] at hrejected
    rw [← Table.get?_isSome_iff, hwrites.theta row.1 hnew, Table.get?_isSome_iff] at hu
    exact {
      registered := hu
      rejected := hrejected
      past_done := by rw [hpast]; rfl
      theta := by rw [hpast]; rfl
      writes := hwrites.trans (WritesUsers.withCounters _ before c) }

/-- A system that ends a sweep over items **at a row** leaves that behind. -/
theorem itemsStoppedAt [Operand.Plain ρ α] {m : Model α n} {past : Table Key (List Key)}
    {rows : Table Key (Row ρ)} {row : Key × List Key} {d : SystemDefect} (hnew : row.1 ∉ past)
    (hdone : (m.sweepItems past rows).fault = none)
    (hfail : (sweepItem (m.theta.background m.hyper.unobserved m.hyper.ridgeBeta) rows
      (m.sweepItems past rows).state row).fault = some (.system d)) :
    m.ItemsStoppedAt past rows row d (sweepItem
      (m.theta.background m.hyper.unobserved m.hyper.ridgeBeta) rows
      (m.sweepItems past rows).state row).state := by
  have hwrites := writesItems_sweepItems hdone
  have hstep := writesItems_sweepItem (m.theta.background m.hyper.unobserved m.hyper.ridgeBeta) rows
    (m.sweepItems past rows).state row
  obtain ⟨hi, c, hends⟩ := sweepItem_of_fault hfail
  rw [← Table.get?_isSome_iff, hwrites.beta row.1 hnew, Table.get?_isSome_iff] at hi
  refine {
    registered := hi
    past_done := hdone
    stopped := ?_
    writes := (hwrites.mono fun _ hj => .inl hj).trans (hstep.mono fun _ hj => .inr hj) }
  rcases hends with ⟨hrejected, hstate⟩ | ⟨v, hv, hrejected, hstate⟩
  · exact .inl ⟨hrejected, by rw [hstate]; rfl⟩
  · exact .inr ⟨v, hv, hrejected, by rw [hstate]; rfl⟩

end

end Model

/-- The entries before a row are those **of a table**, in which the key of the row does not
occur. -/
theorem Table.exists_past {κ ν : Type} {t : Table κ ν} {past rest : List (κ × ν)} {row : κ × ν}
    (h : t.entries = past ++ row :: rest) :
    ∃ t' : Table κ ν, t'.entries = past ∧ row.1 ∉ t' := by
  have hnodup := t.nodup
  rw [h, List.map_append, List.map_cons] at hnodup
  refine ⟨⟨past, hnodup.of_append_left⟩, rfl, fun hrow => ?_⟩
  exact (List.disjoint_of_nodup_append hnodup) hrow List.mem_cons_self

/-- **What an aborted sweep leaves behind**: the rows before the one that a system ended have been
worked through as a sweep over them alone does it, the rows after it have not been touched, and of
the row itself nothing has been written but, if an item's system as a neighbour was the one, the
new vector of the item. -/
theorem aborted_sweeps [Scalar α] [Operand ρ α] [Operand.Plain ρ α] (m : Model α n) :
    (∀ userItems d, (m.updateUsers userItems).fault = some (.system d) →
      ∃ past : Table Key (List Key), ∃ row rest, userItems.entries = past.entries ++ row :: rest ∧
        m.UsersStoppedAt past row d (m.updateUsers userItems).state) ∧
    (∀ itemUsers (rows : Table Key (Row ρ)) d,
      (m.updateItems itemUsers rows).fault = some (.system d) →
      ∃ past : Table Key (List Key), ∃ row rest, itemUsers.entries = past.entries ++ row :: rest ∧
        m.ItemsStoppedAt past rows row d (m.updateItems itemUsers rows).state) := by
  refine ⟨fun userItems d hf => ?_, fun itemUsers rows d hf => ?_⟩
  · have hsweep := Model.updateUsers_of_fault hf
    rw [hsweep] at hf ⊢
    obtain ⟨es, row, rest, hentries, hdone, hfail, hstate⟩ := Outcome.each_of_fault hf
    obtain ⟨past, rfl, hnew⟩ := Table.exists_past hentries
    exact ⟨past, row, rest, hentries, hstate ▸ Model.usersStoppedAt hnew hdone hfail⟩
  · have hsweep := Model.updateItems_of_fault hf
    rw [hsweep] at hf ⊢
    obtain ⟨es, row, rest, hentries, hdone, hfail, hstate⟩ := Outcome.each_of_fault hf
    obtain ⟨past, rfl, hnew⟩ := Table.exists_past hentries
    exact ⟨past, row, rest, hentries, hstate ▸ Model.itemsStoppedAt hnew hdone hfail⟩

/-- A model in which the vector of one item is **zero**, and in which the vectors of users and those
of items as neighbours are not regularised. -/
noncomputable def Model.unridged : Model ℝ 1 where
  hyper := ⟨0, 1, 0, 1, 0, ⟨.gaussian, 1, 1, 1⟩, .objective, 1, false, false⟩
  theta := Table.ofList [(.text "u", #v[1]), (.text "v", #v[1])]
  beta := Table.ofList [(.text "a", #v[1]), (.text "b", #v[1]), (.text "zero", #v[0])]
  gamma := Table.ofList [(.text "a", #v[1]), (.text "b", #v[1]), (.text "zero", #v[0])]
  betaBias := Table.empty
  gammaBias := Table.empty
  globalBias := 0
  histories := Table.empty
  counters := Table.empty
  source := ⟨7, 0⟩

/-- Tables with a user **without items**, and with an item whose only neighbour is the zero. -/
noncomputable def Training.meagre : Training ℝ where
  userItems := Table.ofList [(.text "u", [.text "a"]), (.text "v", [])]
  itemUsers := Table.ofList [(.text "a", [.text "u"]), (.text "b", [.text "u"]), (.text "zero", [])]
  rows := Table.ofList [(.text "b", [(.text "zero", 1)])]
  heldOut := []

/-- A system whose **first pivot** is not positive is rejected there. -/
theorem solveSystem_of_nonpos {M : Mat ℝ (n + 1) (n + 1)} (hM : ¬ 0 < M.toMatrix 0 0)
    (b : Vec ℝ (n + 1)) : solveSystem M b = .error (.system (.notPositiveDefinite 1)) := by
  have hfin : (!(Mat.finite M && Vec.finite b)) = false := by simp
  rw [solveSystem, hfin, if_neg Bool.false_ne_true, Triangle.ofMat_of_nonpos hM]

/-- Neighbours whose vectors are all **zero** make no system, unless there is a ridge. -/
theorem newGamma_of_vanishing {beta : Factors ℝ (n + 1)} {row : Row ℝ} (h : HasNeighbor beta row)
    (hrow : ∀ e ∈ row, beta.vectorAt e.1 = 0) (item : Key)
    (betaBias gammaBias : Option (Table Key (Bias ℝ))) (globalBias : ℝ) :
    newGamma item row beta betaBias gammaBias 0 globalBias
      = .error (.system (.notPositiveDefinite 1)) := by
  have hne := (isEmpty_neighbors beta row).2 h
  have hM : (gammaSystem beta row 0).toMatrix = 0 := by
    rw [toMatrix_gammaSystem, zero_smul, add_zero, rowMatrix,
      List.map_congr_left fun e he => by rw [hrow e he, outer_zero]]
    simp
  rw [newGamma, unexplained_scalars]
  simp only [hne, Bool.false_eq_true, if_false]
  change Except.map some (solveSystem (gammaSystem beta row 0) _) = _
  rw [solveSystem_of_nonpos (by rw [hM]; exact lt_irrefl 0)]
  rfl

/-- Users without items make no system either, unless there is a **ridge** or a weight for what has
not been observed. -/
theorem newTheta_nil (beta : Factors ℝ (n + 1)) (c₁ : ℝ) :
    newTheta [] beta (beta.background 0 0) 0 c₁
      = .error (.system (.notPositiveDefinite 1)) := by
  have hM : (thetaSystem (beta.background 0 0) beta [] 0 c₁).toMatrix = 0 := by
    rw [toMatrix_thetaSystem, observedMatrix]
    simp
  refine solveSystem_of_nonpos ?_ _
  change ¬ 0 < (thetaSystem (beta.background 0 0) beta [] 0 c₁).toMatrix 0 0
  rw [hM]
  exact lt_irrefl 0

namespace Model

/-! The steps at a row whose systems are solved, and at one where one of them is rejected. -/

section

variable [Scalar α] {m : Model α n} {background : Mat α n n}

theorem sweepUser_of_ok {e : Key × List Key} {v : Vec α n} (hu : e.1 ∈ m.theta)
    (hv : newTheta e.2 m.beta background m.hyper.unobserved m.hyper.observed = .ok v) :
    ∃ c, m.sweepUser background e = .done ((m.withCounters c).setTheta e.1 v) := by
  rcases m.sweepUser_cases background e with ⟨hnot, -⟩ | ⟨-, c, ⟨w, hw, h⟩ | ⟨f, hf, -⟩⟩
  · exact absurd hu hnot
  · obtain rfl := Except.ok.inj (hv.symm.trans hw)
    exact ⟨c, h⟩
  · exact absurd (hv.symm.trans hf) nofun

theorem sweepUser_of_error {e : Key × List Key} {f : Fault} (hu : e.1 ∈ m.theta)
    (hf : newTheta e.2 m.beta background m.hyper.unobserved m.hyper.observed = .error f) :
    ∃ c, m.sweepUser background e = .failed (m.withCounters c) f := by
  rcases m.sweepUser_cases background e with ⟨hnot, -⟩ | ⟨-, c, ⟨w, hw, -⟩ | ⟨f', hf', h⟩⟩
  · exact absurd hu hnot
  · exact absurd (hf.symm.trans hw) nofun
  · obtain rfl := Except.error.inj (hf.symm.trans hf')
    exact ⟨c, h⟩

variable [Operand ρ α]

theorem updateBeta_of_ok {i : Key} {raters : List Key} {row : Row ρ} {v : Vec α n}
    (hv : newBeta i raters row m.theta m.gamma m.seenBetaBias m.seenGammaBias background
      m.hyper.unobserved m.hyper.observed m.globalBias = .ok v) :
    m.updateBeta background i raters row = .done (m.setBeta i v) := by
  rcases m.updateBeta_cases background i raters row with ⟨w, hw, h⟩ | ⟨f, hf, -⟩
  · obtain rfl := Except.ok.inj (hv.symm.trans hw)
    exact h
  · exact absurd (hv.symm.trans hf) nofun

theorem updateGamma_of_error {i : Key} {row : Row ρ} {f : Fault}
    (hf : newGamma i row m.beta m.seenBetaBias m.seenGammaBias m.hyper.ridgeGamma m.globalBias
      = .error f) : m.updateGamma i row = .failed m f := by
  rcases m.updateGamma_cases i row with ⟨v, hv, -⟩ | ⟨hnone, -⟩ | ⟨f', hf', h⟩
  · exact absurd (hf.symm.trans hv) nofun
  · exact absurd (hf.symm.trans hnone) nofun
  · obtain rfl := Except.error.inj (hf.symm.trans hf')
    exact h

end

/-- The user **with an item** gets a vector. -/
theorem exists_newTheta_unridged :
    ∃ w, newTheta [.text "a"] unridged.beta (unridged.beta.background 0 0) 0 1 = .ok w := by
  have hone : outer (unridged.beta.vectorAt (.text "a")) = 1 := by
    rw [Factors.vectorAt_of_get? (v := #v[1]) rfl]
    ext i j
    rw [Subsingleton.elim i 0, Subsingleton.elim j 0]
    simp [outer, Matrix.vecMulVec_apply, Vec.coords]
  have hA : observedMatrix unridged.beta [.text "a"] 0 1 0 = 1 := by
    rw [observedMatrix, Finset.sum_eq_single (.text "a"), hone]
    · simp
    · intro k _ hk
      simp [hk.symm]
    · intro ha
      exact absurd (Table.mem_domain.2 (show Key.text "a" ∈ unridged.beta by decide)) ha
  have hpd : (observedMatrix unridged.beta [.text "a"] 0 1 0).PosDef := hA ▸ Matrix.PosDef.one
  obtain ⟨w, hw⟩ := exists_mulVec_eq hpd (observedTarget unridged.beta [.text "a"] 1)
  exact ⟨w, newTheta_eq_ok_iff.2 ⟨hpd, hw⟩⟩

/-- The user without items is where the sweep over **users** ends. -/
theorem updateUsers_unridged : (unridged.updateUsers Training.meagre.userItems).fault
    = some (.system (.notPositiveDefinite 1)) := by
  obtain ⟨w, hw⟩ := exists_newTheta_unridged
  obtain ⟨c, hfirst⟩ := sweepUser_of_ok (m := unridged) (e := (.text "u", [.text "a"]))
    (by decide) hw
  have hv : Key.text "v" ∈ unridged.theta.insert (.text "u") w :=
    Table.mem_insert.2 (.inr (by decide))
  obtain ⟨c', hsecond⟩ := sweepUser_of_error
    (m := (unridged.withCounters c).setTheta (.text "u") w) (e := (.text "v", [])) hv
    (newTheta_nil unridged.beta 1)
  have hsweep : (unridged.sweepUsers Training.meagre.userItems).fault
      = some (.system (.notPositiveDefinite 1)) := by
    change (Outcome.each (sweepUser (unridged.beta.background 0 0)) unridged
      [(.text "u", [.text "a"]), (.text "v", [])]).fault = _
    rw [Outcome.each, hfirst, Outcome.bind_of_done rfl, Outcome.done, Outcome.each, hsecond]
    rfl
  rw [updateUsers_eq, Outcome.bind_of_fault hsweep]
  exact hsweep

/-- Whatever else has been written, an item gets a vector **from its user**. -/
theorem exists_updateBeta_unridged {m : Model ℝ 1} (hhyper : m.hyper = unridged.hyper)
    (htheta : m.theta = unridged.theta) (i : Key) (row : Row ℝ) :
    ∃ w, m.updateBeta (unridged.theta.background 0 1) i [.text "u"] row
      = .done (m.setBeta i w) := by
  have hpd := (posDef_observedMatrix unridged.theta (List.nodup_singleton (.text "u")) le_rfl
    zero_le_one zero_lt_one).add_posSemidef (posSemidef_rowMatrix m.gamma row)
  obtain ⟨w, hw⟩ := exists_mulVec_eq hpd (observedTarget unridged.theta [.text "u"] 1
    + rowTarget m.gamma row (restOf m.seenBetaBias m.seenGammaBias m.globalBias i))
  refine ⟨w, updateBeta_of_ok ?_⟩
  rw [hhyper, htheta]
  exact newBeta_eq_ok_iff.2 ⟨hpd, hw⟩

/-- The row of the item **with the zero as its neighbour** is not worked through. -/
theorem sweepItem_unridged (c : Counters) (w : Vec ℝ 1) :
    (((unridged.withCounters c).setBeta (.text "a") w).sweepItem (unridged.theta.background 0 1)
      Training.meagre.rows (.text "b", [.text "u"])).fault
        = some (.system (.notPositiveDefinite 1)) := by
  have hb : Key.text "b" ∈ unridged.beta.insert (.text "a") w :=
    Table.mem_insert.2 (.inr (by decide))
  let row : Row ℝ := [(.text "zero", 1)]
  rcases ((unridged.withCounters c).setBeta (.text "a") w).sweepItem_cases
    (unridged.theta.background 0 1) Training.meagre.rows (.text "b", [.text "u"]) with
    ⟨hnot, -⟩ | ⟨-, c', hstep⟩
  · exact absurd hb hnot
  let m := ((unridged.withCounters c).setBeta (.text "a") w).withCounters c'
  obtain ⟨w', hw'⟩ := exists_updateBeta_unridged (m := m) rfl rfl (.text "b") row
  have hzero : (m.setBeta (.text "b") w').beta.get? (.text "zero") = some #v[0] :=
    (Table.get?_insert_of_ne _ (by decide) w').trans (Table.get?_insert_of_ne _ (by decide) w)
  have hvanishing : ∀ e ∈ row, (m.setBeta (.text "b") w').beta.vectorAt e.1 = 0 := by
    intro e he
    obtain rfl := List.mem_singleton.1 he
    rw [Factors.vectorAt_of_get? hzero]
    ext i
    rw [Subsingleton.elim i 0]
    rfl
  have hgamma := updateGamma_of_error (m := m.setBeta (.text "b") w') (newGamma_of_vanishing
    ⟨_, List.mem_singleton.2 rfl, Table.mem_of_get? hzero⟩ hvanishing (.text "b")
    (m.setBeta (.text "b") w').seenBetaBias (m.setBeta (.text "b") w').seenGammaBias
    (m.setBeta (.text "b") w').globalBias)
  rw [hstep]
  change (((m.updateBeta (unridged.theta.background 0 1) (.text "b") [.text "u"] row).bind
    fun m => m.updateGamma (.text "b") row).bind _).fault = _
  rw [hw', Outcome.done, Outcome.bind_of_done (o := ⟨_, none⟩) rfl, hgamma]
  rfl

/-- The item with the zero as its neighbour is where the sweep over **items** ends. -/
theorem updateItems_unridged :
    (unridged.updateItems Training.meagre.itemUsers Training.meagre.rows).fault
      = some (.system (.notPositiveDefinite 1)) := by
  obtain ⟨c, w, hfirst⟩ : ∃ c w, unridged.sweepItem (unridged.theta.background 0 1)
      Training.meagre.rows (.text "a", [.text "u"])
        = .done ((unridged.withCounters c).setBeta (.text "a") w) := by
    rcases unridged.sweepItem_cases (unridged.theta.background 0 1) Training.meagre.rows
      (.text "a", [.text "u"]) with ⟨hi, -⟩ | ⟨-, c, hstep⟩
    · exact absurd (by decide) hi
    · obtain ⟨w, hw⟩ := exists_updateBeta_unridged (m := unridged.withCounters c) rfl rfl
        (.text "a") []
      refine ⟨c, w, hstep.trans ?_⟩
      change ((updateBeta (unridged.theta.background 0 1) (unridged.withCounters c) (.text "a")
        [.text "u"] []).bind fun m => _).bind _ = _
      rw [hw]
      rfl
  have hsecond := sweepItem_unridged c w
  have hsweep : (unridged.sweepItems Training.meagre.itemUsers Training.meagre.rows).fault
      = some (.system (.notPositiveDefinite 1)) := by
    change (Outcome.each (sweepItem (unridged.theta.background 0 1) Training.meagre.rows) unridged
      [(.text "a", [.text "u"]), (.text "b", [.text "u"]), (.text "zero", [])]).fault = _
    rw [Outcome.each, hfirst, Outcome.bind_of_done rfl, Outcome.done, Outcome.each,
      Outcome.bind_of_fault hsecond]
    exact hsecond
  rw [updateItems_eq, Outcome.bind_of_fault hsweep, Outcome.bind_of_fault hsweep]
  exact hsweep

end Model

/-- A sweep over users and a sweep over items that are **aborted at their second rows**. -/
theorem aborted_sweeps_unridged :
    let m := Model.unridged
    let t := Training.meagre
    let d := SystemDefect.notPositiveDefinite 1
    ((m.updateUsers t.userItems).fault = some (.system d) ∧
      ∃ past : Table Key (List Key), ∃ row rest, t.userItems.entries = past.entries ++ row :: rest ∧
        m.UsersStoppedAt past row d (m.updateUsers t.userItems).state) ∧
    ((m.updateItems t.itemUsers t.rows).fault = some (.system d) ∧
      ∃ past : Table Key (List Key), ∃ row rest, t.itemUsers.entries = past.entries ++ row :: rest ∧
        m.ItemsStoppedAt past t.rows row d (m.updateItems t.itemUsers t.rows).state) := by
  intro m t d
  have husers : (m.updateUsers t.userItems).fault = some (.system d) := Model.updateUsers_unridged
  have hitems : (m.updateItems t.itemUsers t.rows).fault = some (.system d) :=
    Model.updateItems_unridged
  exact ⟨⟨husers, (aborted_sweeps (ρ := ℝ) m).1 t.userItems d husers⟩,
    ⟨hitems, (aborted_sweeps m).2 t.itemUsers t.rows d hitems⟩⟩

end CoEmbed
