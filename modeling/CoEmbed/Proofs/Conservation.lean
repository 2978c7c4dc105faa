import CoEmbed.Proofs.Counting
import CoEmbed.Proofs.Objective.Stationary

/-!
# Conservation

What counters show after any registrations and sweeps is what has been met on the way, each thing
once: nobody is counted twice, and nothing that is passed over is forgotten.

* `Roll.after`, `Roll.met` — who is registered after some operations, and what is met in them.
* `Model.shows_act`, `Model.shows_each_act` — what one operation counts, and what all of them do.
* `counters_balance` — the counters of a model that has had them from the beginning.
* `Model.act_done` — operations that go through.

## Operation convention

Whatever else is asked of a model between its sweeps counts nothing.
-/

namespace CoEmbed

variable {ρ α : Type} {n : ℕ}

/-! ### Sequences of operations -/

namespace Roll

/-- Nobody is registered. -/
def nobody : Roll := ⟨∅, ∅⟩

/-- Who is registered **after some operations**. -/
def after (r : Roll) (ops : List (Operation ρ)) : Roll := ops.foldl enrol r

/-- **All that is met** in some operations, one after the other. -/
def met (r : Roll) : List (Operation ρ) → Meeting → List Key
  | [], _ => []
  | op :: ops, what => r.meets op what ++ (r.enrol op).met ops what

theorem tally_met_cons (r : Roll) (op : Operation ρ) (ops : List (Operation ρ)) :
    tally (r.met (op :: ops)) = tally (r.meets op) + tally ((r.enrol op).met ops) :=
  tally_append _ _

/-- Where nothing is met, **nothing is counted**. -/
theorem tally_meets_of_nothing (r : Roll) {op : Operation ρ} (h : ∀ what, r.meets op what = []) :
    tally (r.meets op) = 0 := by
  rw [funext h, tally_nil]

end Roll

namespace Model

variable [Scalar α] [Operand ρ α] {m : Model α n} {census : Counted → ℤ}

/-- What **an operation** counts are those whom it registers, and what is met in it. -/
theorem shows_act [Machine] (haligned : m.Aligned) (h : m.counters.Shows census) {op : Operation ρ}
    (hf : (m.act op).fault = none) : (m.act op).state.roll = m.roll.enrol op ∧
      (m.act op).state.counters.Shows
        (census + ((m.roll.enrol op).size - m.roll.size) + tally (m.roll.meets op)) := by
  have hquiet : (∀ what, m.roll.meets op what = []) → m.roll.enrol op = m.roll →
      census + ((m.roll.enrol op).size - m.roll.size) + tally (m.roll.meets op) = census := by
    intro hmeets hsame
    rw [Roll.tally_meets_of_nothing _ hmeets, hsame, sub_self, add_zero, add_zero]
  cases op with
  | registerUsers users =>
      obtain ⟨hroll, hcounted⟩ := shows_registerUsers users h hf
      refine ⟨hroll, ?_⟩
      rw [Roll.tally_meets_of_nothing _ fun _ => rfl, add_zero]
      exact hcounted
  | registerHistories histories =>
      obtain ⟨hroll, hcounted⟩ := shows_registerUsers (m := { m with
        histories := histories.entries.foldl (fun h e => h.insert e.1 e.2) m.histories })
        histories.keys h hf
      refine ⟨hroll, ?_⟩
      rw [Roll.tally_meets_of_nothing _ fun _ => rfl, add_zero]
      exact hcounted
  | registerItems items =>
      obtain ⟨hroll, hcounted⟩ := shows_registerItems items h hf
      refine ⟨hroll, ?_⟩
      rw [Roll.tally_meets_of_nothing _ fun _ => rfl, add_zero]
      exact hcounted
  | updateUsers userItems =>
      refine ⟨roll_of_frame (keeps_updateUsers m userItems).frame, ?_⟩
      rw [Roll.enrol, sub_self, add_zero]
      exact shows_updateUsers userItems h hf
  | updateItems itemUsers rows =>
      refine ⟨roll_of_frame (keeps_updateItems haligned itemUsers rows).frame, ?_⟩
      rw [Roll.enrol, sub_self, add_zero]
      exact shows_updateItems haligned itemUsers rows h hf
  | validate user item => exact ⟨rfl, (hquiet (fun _ => rfl) rfl).symm ▸ h⟩
  | predict user item => exact ⟨rfl, (hquiet (fun _ => rfl) rfl).symm ▸ h⟩
  | preferenceLoss samples => exact ⟨rfl, (hquiet (fun _ => rfl) rfl).symm ▸ h⟩
  | neighborLoss samples => exact ⟨rfl, (hquiet (fun _ => rfl) rfl).symm ▸ h⟩
  | ridgeLoss => exact ⟨rfl, (hquiet (fun _ => rfl) rfl).symm ▸ h⟩
  | loss samples => exact ⟨rfl, (hquiet (fun _ => rfl) rfl).symm ▸ h⟩

/-- What **operations** count that all go through. -/
theorem shows_each_act [Machine] {hyper : Hyper α} {g : α} (hm : m.Consistent hyper g)
    (h : m.counters.Shows census) {ops : List (Operation ρ)}
    (hf : (Outcome.each act m ops).fault = none) :
    (Outcome.each act m ops).state.roll = m.roll.after ops ∧
      (Outcome.each act m ops).state.counters.Shows
        (census + ((m.roll.after ops).size - m.roll.size) + tally (m.roll.met ops)) := by
  induction ops generalizing m census with
  | nil =>
      refine ⟨rfl, ?_⟩
      have hnothing : tally (m.roll.met ([] : List (Operation ρ))) = 0 := tally_nil
      rw [hnothing, add_zero, Roll.after, List.foldl_nil, sub_self, add_zero]
      exact h
  | cons op ops ih =>
      obtain ⟨hdone, hrest⟩ := Outcome.bind_done_iff.1 hf
      obtain ⟨hroll, hcounted⟩ := shows_act hm.aligned h hdone
      obtain ⟨hroll', hcounted'⟩ := ih (consistent_act hm op) hcounted hrest
      rw [hroll] at hroll' hcounted'
      rw [Outcome.each, Outcome.bind_of_done hdone]
      refine ⟨hroll', ?_⟩
      have hsum : census + ((m.roll.enrol op).size - m.roll.size) + tally (m.roll.meets op)
          + (((m.roll.enrol op).after ops).size - (m.roll.enrol op).size)
          + tally ((m.roll.enrol op).met ops)
          = census + ((m.roll.after (op :: ops)).size - m.roll.size)
            + tally (m.roll.met (op :: ops)) := by
        rw [Roll.tally_met_cons, Roll.after, Roll.after, List.foldl_cons]
        abel
      rw [← hsum]
      exact hcounted'

end Model

/-- **Nothing is counted twice or forgotten.** Of a model that has all counters from the beginning,
after any operations that go through: the counters of users and of items show how many are
registered; the difference between what has been listed for users and what could be learnt from is
what was stale in their rows, and likewise for items; items are skipped where they are stale in the
row of a user, or as neighbours, or have a row themselves without being registered; and users where
they are stale in the row of an item, or have such a row. -/
theorem counters_balance [Machine] [Numeral α] [Operand ρ α] {s : Settings α}
    {init : Option (VectorInit α)} {source : Source} {m : Model α n}
    (hm : Model.ofSettings s init source = .ok ⟨n, m⟩)
    {c : Counters} (hc : c.Shows 0) {ops : List (Operation ρ)}
    (hf : (Outcome.each Model.act (m.withCounters c) ops).fault = none) :
    let last := (Outcome.each Model.act (m.withCounters c) ops).state
    let met := Roll.nobody.met ops
    ∃ census : Counted → ℤ, last.counters.Shows census ∧ last.roll = Roll.nobody.after ops ∧
      census .users = last.roll.users.card ∧ census .items = last.roll.items.card ∧
      census .thetaTotal = (met .listedItem).length ∧
      census .thetaTotal - census .thetaTrainable = (met .staleItem).length ∧
      census .betaTotal = (met .listedUser).length ∧
      census .betaTotal - census .betaTrainable = (met .staleUser).length ∧
      census .skippedItems = (met .staleItem).length + (met .staleNeighbor).length
        + (met .strangeItem).length ∧
      census .skippedUsers = (met .staleUser).length + (met .strangeUser).length := by
  obtain ⟨hyper, g, heq, -, -⟩ := Model.ofSettings_eq_ok hm
  obtain rfl : m = Model.empty hyper g source := eq_of_heq (Sigma.mk.inj heq).2
  have hstart := (Model.consistent_empty hyper g source (n := n)).of_keeps
    (Model.Keeps.withCounters _ c)
  obtain ⟨hroll, hshows⟩ := Model.shows_each_act hstart hc hf
  have hnobody : (Model.withCounters (Model.empty hyper g source : Model α n) c).roll
      = Roll.nobody := rfl
  rw [hnobody] at hroll hshows
  refine ⟨_, hshows, hroll, ?_⟩
  rw [hroll]
  refine ⟨?_, ?_, ?_, ?_, ?_, ?_, ?_, ?_⟩
  all_goals simp [Roll.size, Roll.nobody, tally]

/-! ### Operations that go through -/

/-- The operation is a registration, or a sweep over lists **without repeats**. -/
def Operation.Distinct : Operation ℝ → Prop
  | registerUsers _ | registerHistories _ | registerItems _ => True
  | updateUsers userItems => userItems.Distinct
  | updateItems itemUsers _ => itemUsers.Distinct
  | validate _ _ | predict _ _ | preferenceLoss _ | neighborLoss _ | ridgeLoss | loss _ => False

/-- In exact arithmetic such an operation **goes through**, if the ridges are positive. -/
theorem Model.act_done [Machine] {m : Model ℝ n} (hpos : m.hyper.Positive) {op : Operation ℝ}
    (hop : op.Distinct) : (m.act op).fault = none ∧ (m.act op).state.hyper = m.hyper := by
  cases op with
  | registerUsers users =>
      have hdone : m.act (.registerUsers users : Operation ℝ) = .done _ :=
        if_pos (canRegister_real m m.theta users)
      rw [hdone]
      exact ⟨rfl, rfl⟩
  | registerHistories histories =>
      have hdone : m.act (.registerHistories histories : Operation ℝ) = .done _ :=
        if_pos (canRegister_real _ m.theta histories.keys)
      rw [hdone]
      exact ⟨rfl, rfl⟩
  | registerItems items =>
      have hdone : m.act (.registerItems items : Operation ℝ) = .done _ := if_pos (by
        rw [canRegister_real, canRegister_real]
        rfl)
      rw [hdone]
      exact ⟨rfl, rfl⟩
  | updateUsers userItems => exact updateUsers_done hpos hop
  | updateItems itemUsers rows => exact updateItems_done hpos hop rows
  | validate user item => cases hop
  | predict user item => cases hop
  | preferenceLoss samples => cases hop
  | neighborLoss samples => cases hop
  | ridgeLoss => cases hop
  | loss samples => cases hop

/-- A user and an item who are registered from the beginning, another user who is registered in the
middle, and another item that never is: its row and its place in the rows of others **are met
twice**, and each time it is skipped. -/
theorem counters_balance_late :
    letI := Spelling.silent
    let settings := ((Settings.ones .auc 1).set .useBias (.flag true)).set .updateGlobalBias
      (.flag true)
    let t := Training.mutual
    let ops : List (Operation ℝ) :=
      [.registerUsers [.text "u"], .registerItems [.text "a"], .updateUsers t.userItems,
        .updateItems t.itemUsers t.rows, .registerUsers [.text "v", .text "u"],
        .updateUsers t.userItems, .updateItems t.itemUsers t.rows]
    ∃ m : Model ℝ 1, Model.ofSettings settings (some ⟨.gaussian, 1, 1, 1⟩) ⟨7, 0⟩ = .ok ⟨1, m⟩ ∧
      (Outcome.each Model.act (m.withCounters .complete) ops).fault = none ∧
      ∃ census : Counted → ℤ,
        (Outcome.each Model.act (m.withCounters .complete) ops).state.counters.Shows census ∧
        census .users = 2 ∧ census .items = 1 ∧
        census .thetaTotal = 4 ∧ census .thetaTrainable = 3 ∧
        census .betaTotal = 4 ∧ census .betaTrainable = 3 ∧
        census .skippedItems = 5 ∧ census .skippedUsers = 2 := by
  let _ := Spelling.silent
  intro settings t ops
  let m : Model ℝ 1 := Model.empty
    ⟨1, 1, 1, 1, 1, ⟨.gaussian, 1, 1, 1⟩, .auc, 1, true, true⟩ 1 ⟨7, 0⟩
  have hm : Model.ofSettings settings (some ⟨.gaussian, 1, 1, 1⟩) ⟨7, 0⟩ = .ok ⟨1, m⟩ :=
    Model.ofSettings_ones .auc 1 true ⟨7, 0⟩
  have hpos : m.hyper.Positive := ⟨zero_le_one, zero_le_one, one_pos, one_pos, one_pos⟩
  have hdistinct : ∀ op ∈ ops, op.Distinct := by
    have huserItems : t.userItems.Distinct := by decide
    have hitemUsers : t.itemUsers.Distinct := by decide
    simp only [ops, List.forall_mem_cons]
    exact ⟨trivial, trivial, huserItems, hitemUsers, trivial, huserItems, hitemUsers, nofun⟩
  have hf : (Outcome.each Model.act (m.withCounters .complete) ops).fault = none := by
    refine (Outcome.each_done (fun m' => m'.hyper = m.hyper) rfl fun m' op hop hhyper => ?_).1
    obtain ⟨hdone, hkept⟩ := Model.act_done (hhyper ▸ hpos) (hdistinct op hop)
    exact ⟨hdone, hkept.trans hhyper⟩
  obtain ⟨census, hshows, hroll, husers, hitems, htheta, hstaleItem, hbeta, hstaleUser, hskipped,
    hskipped'⟩ := counters_balance hm Counters.shows_complete hf
  have hlast : (Roll.nobody.after ops).users.card = 2 ∧ (Roll.nobody.after ops).items.card = 1 := by
    decide
  have hmet : (Roll.nobody.met ops .listedItem).length = 4 ∧
      (Roll.nobody.met ops .staleItem).length = 1 ∧
      (Roll.nobody.met ops .listedUser).length = 4 ∧
      (Roll.nobody.met ops .staleUser).length = 1 ∧
      (Roll.nobody.met ops .staleNeighbor).length = 2 ∧
      (Roll.nobody.met ops .strangeUser).length = 1 ∧
      (Roll.nobody.met ops .strangeItem).length = 2 := by
    decide
  rw [hroll] at husers hitems
  refine ⟨m, hm, hf, census, hshows, ?_⟩
  omega

end CoEmbed
