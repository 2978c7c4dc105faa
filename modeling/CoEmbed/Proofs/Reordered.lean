import CoEmbed.Proofs.Minimum.Theta

/-!
# Sweeps over Users, Reordered and Repeated

What a sweep over users puts in place at a row depends on the items of the row and on the vectors
of items. It depends neither on the rows before it nor on the vectors that users have had. So the
rows may come in any order, in one sweep or in two, once or twice, and whatever was there before.

* `Table.Splits` — the rows of a table, in any order, in two tables.
* `Model.Solves` — every system that a sweep over users comes to has a solution.
* `Model.resolved`, `Model.updateUsers_of_solves` — a sweep over users as one map over the vectors
  of users.
* `updateUsers_order_free` — what can be done to the rows without changing what they leave.

## Stranger convention

Rows of users that are not registered are passed over, wherever they stand; a user without a row
keeps the vector that the user has had.
-/

namespace CoEmbed

variable {n : ℕ}

namespace Table

variable {κ ν : Type} [DecidableEq κ]

/-- The entries of a table, in any order, are those of **two others**. -/
def Splits (first second t : Table κ ν) : Prop :=
  (first.entries ++ second.entries).Perm t.entries

namespace Splits

variable {first second t : Table κ ν}

omit [DecidableEq κ] in
theorem mem_iff (h : Splits first second t) {k : κ} : k ∈ t ↔ k ∈ first ∨ k ∈ second := by
  rw [Table.mem_iff, keys, ← (h.map Prod.fst).mem_iff, List.map_append, List.mem_append]
  rfl

omit [DecidableEq κ] in
/-- The two tables have **no key in common**. -/
theorem not_mem (h : Splits first second t) {k : κ} (hk : k ∈ second) : k ∉ first := by
  have hnodup : ((first.entries ++ second.entries).map Prod.fst).Nodup :=
    (h.map Prod.fst).nodup_iff.2 t.nodup
  rw [List.map_append] at hnodup
  exact fun hfirst => List.disjoint_of_nodup_append hnodup hfirst hk

theorem get?_first (h : Splits first second t) {k : κ} (hk : k ∈ first) :
    first.get? k = t.get? k := by
  obtain ⟨v, hv⟩ := exists_get? hk
  rw [hv]
  exact (get?_of_mem_entries
    ((List.Perm.mem_iff h).1 (List.mem_append_left _ (mem_entries_of_get? hv)))).symm

theorem get?_second (h : Splits first second t) {k : κ} (hk : k ∈ second) :
    second.get? k = t.get? k := by
  obtain ⟨v, hv⟩ := exists_get? hk
  rw [hv]
  exact (get?_of_mem_entries
    ((List.Perm.mem_iff h).1 (List.mem_append_right _ (mem_entries_of_get? hv)))).symm

end Splits

end Table

namespace Model

variable {m m' : Model ℝ n} {userItems userItems' : Table Key (List Key)}

/-! ### One sweep -/

/-- The solution of a user's system depends on **the vectors of items and the row** alone. -/
theorem solution_congr (hhyper : m'.hyper = m.hyper) (hbeta : m'.beta = m.beta) {u : Key}
    (hrow : userItems'.get? u = userItems.get? u) :
    m'.solution userItems' u = m.solution userItems u := by
  rw [solution, solution, hhyper, hbeta, hrow]

/-- Every system that a sweep over users comes to **has a solution**. -/
def Solves (m : Model ℝ n) (userItems : Table Key (List Key)) : Prop :=
  ∀ u ∈ m.theta, u ∈ userItems → ∃ v, m.solution userItems u = .ok v

/-- A sweep over users goes through **exactly if** its systems have solutions. -/
theorem updateUsers_fault_eq_none_iff_solves :
    (m.updateUsers userItems).fault = none ↔ m.Solves userItems := by
  rw [updateUsers_fault_eq_none_iff]
  refine forall_congr' fun u => forall_congr' fun _ => forall_congr' fun _ => ?_
  constructor
  · intro hpos
    obtain ⟨v, hv⟩ := exists_mulVec_eq hpos
      (observedTarget m.beta ((userItems.get? u).getD []) m.hyper.observed)
    exact ⟨v, solution_eq_ok_iff.2 ⟨hpos, hv⟩⟩
  · rintro ⟨v, hv⟩
    exact (solution_eq_ok_iff.1 hv).1

/-- What a sweep over users makes of **one vector**: the solution of the user's system, if the user
has a row. -/
noncomputable def resolved (m : Model ℝ n) (userItems : Table Key (List Key)) (u : Key)
    (v : Vec ℝ n) : Vec ℝ n :=
  if u ∈ userItems then (m.solution userItems u).toOption.getD v else v

/-- A sweep over users whose systems have solutions goes through. It sends each vector of a user
where **its own row** says, and leaves the vectors of items alone. -/
theorem updateUsers_of_solves (h : m.Solves userItems) :
    (m.updateUsers userItems).fault = none ∧
      (m.updateUsers userItems).state.theta = m.theta.mapValues (m.resolved userItems) ∧
      (m.updateUsers userItems).state.hyper = m.hyper ∧
      (m.updateUsers userItems).state.beta = m.beta := by
  have hf := updateUsers_fault_eq_none_iff_solves.2 h
  rw [updateUsers_eq] at hf
  obtain ⟨hrows, -⟩ := Outcome.bind_done_iff.1 hf
  have hsolved := solved_sweepUsers hrows
  have hrest := (writesUsers_sweepUsers hrows).theta
  rw [updateUsers_eq, Outcome.bind_of_done hrows]
  refine ⟨rfl, ?_, hsolved.hyper, hsolved.beta⟩
  refine Table.ext_get? (hsolved.keys.trans (Table.keys_mapValues _ _).symm) fun u hu => ?_
  have hu : u ∈ m.theta := hsolved.mem_iff.1 hu
  obtain ⟨v, hv⟩ := Table.exists_get? hu
  rw [Table.get?_mapValues, hv, Option.map_some, resolved]
  by_cases hrow : u ∈ userItems
  · obtain ⟨w, hw, hget⟩ := hsolved.get u hu hrow
    rw [if_pos hrow, hw]
    exact hget
  · rw [if_neg hrow]
    exact (hrest u hrow).trans hv

/-- Models that agree in the vectors of items and in who is registered, and tables that agree in the
rows of those that are, have **the same systems**. -/
theorem Solves.congr (h : m.Solves userItems) (hhyper : m'.hyper = m.hyper)
    (hbeta : m'.beta = m.beta) (hmem : ∀ u ∈ m'.theta, u ∈ m.theta)
    (hrows : ∀ u ∈ userItems', userItems'.get? u = userItems.get? u) :
    m'.Solves userItems' := by
  intro u hu hrow
  obtain ⟨ks, hks⟩ := Table.exists_get? hrow
  have hrow' : u ∈ userItems := Table.mem_of_get? ((hrows u hrow).symm.trans hks)
  rw [solution_congr hhyper hbeta (hrows u hrow)]
  exact h u (hmem u hu) hrow'

/-! ### Many sweeps -/

/-- The **order of the rows** makes no difference. -/
theorem updateUsers_perm (h : m.Solves userItems)
    (hperm : userItems'.entries.Perm userItems.entries) :
    (m.updateUsers userItems').fault = none ∧
      (m.updateUsers userItems').state.theta = (m.updateUsers userItems).state.theta := by
  have hget := Table.get?_of_perm hperm
  obtain ⟨hf, htheta, -⟩ :=
    updateUsers_of_solves (h.congr rfl rfl (fun _ hu => hu) fun u _ => hget u)
  refine ⟨hf, ?_⟩
  rw [htheta, (updateUsers_of_solves h).2.1]
  refine Table.mapValues_congr fun u v _ => ?_
  have hmem : u ∈ userItems' ↔ u ∈ userItems := by
    rw [← Table.get?_isSome_iff, hget, Table.get?_isSome_iff]
  exact if_congr hmem (by rw [solution_congr rfl rfl (hget u)]) rfl

/-- After a sweep, another one with solutions makes **of its vectors** what it would have made of
those before. -/
theorem updateUsers_then {first second : Table Key (List Key)} (hfirst : m.Solves first)
    (hsecond : m.Solves second) :
    ((m.updateUsers first).bind fun m' => m'.updateUsers second).fault = none ∧
      ((m.updateUsers first).bind fun m' => m'.updateUsers second).state.theta
        = m.theta.mapValues fun u v => m.resolved second u (m.resolved first u v) := by
  obtain ⟨hf, htheta, hhyper, hbeta⟩ := updateUsers_of_solves hfirst
  have hmem : ∀ u ∈ (m.updateUsers first).state.theta, u ∈ m.theta := by
    intro u hu
    rw [htheta] at hu
    exact Table.mem_mapValues.1 hu
  obtain ⟨hf', htheta', -⟩ :=
    updateUsers_of_solves (hsecond.congr hhyper hbeta hmem fun _ _ => rfl)
  rw [Outcome.bind_of_done hf]
  refine ⟨hf', ?_⟩
  rw [htheta', htheta, Table.mapValues_mapValues]
  refine Table.mapValues_congr fun u v _ => ?_
  rw [resolved, solution_congr hhyper hbeta rfl]
  rfl

/-- The rows may be **split between two sweeps**. -/
theorem updateUsers_split (h : m.Solves userItems) {first second : Table Key (List Key)}
    (hsplit : Table.Splits first second userItems) :
    ((m.updateUsers first).bind fun m' => m'.updateUsers second).fault = none ∧
      ((m.updateUsers first).bind fun m' => m'.updateUsers second).state.theta
        = (m.updateUsers userItems).state.theta := by
  have hfirst : m.Solves first :=
    h.congr rfl rfl (fun _ hu => hu) fun u hu => hsplit.get?_first hu
  have hsecond : m.Solves second :=
    h.congr rfl rfl (fun _ hu => hu) fun u hu => hsplit.get?_second hu
  obtain ⟨hf, htheta⟩ := updateUsers_then hfirst hsecond
  refine ⟨hf, ?_⟩
  rw [htheta, (updateUsers_of_solves h).2.1]
  refine Table.mapValues_congr fun u v _ => ?_
  rw [resolved, resolved, resolved]
  -- the second sweep has the last word, and no user has a row in both
  by_cases hu : u ∈ second
  · rw [if_pos hu, if_neg (hsplit.not_mem hu), if_pos (hsplit.mem_iff.2 (.inr hu)),
      solution_congr rfl rfl (hsplit.get?_second hu)]
  · rw [if_neg hu]
    by_cases hu' : u ∈ first
    · rw [if_pos hu', if_pos (hsplit.mem_iff.2 (.inl hu')),
        solution_congr rfl rfl (hsplit.get?_first hu')]
    · rw [if_neg hu', if_neg fun hmem => (hsplit.mem_iff.1 hmem).elim hu' hu]

/-- The same sweep **once more** changes nothing. -/
theorem updateUsers_twice (h : m.Solves userItems) :
    ((m.updateUsers userItems).bind fun m' => m'.updateUsers userItems).fault = none ∧
      ((m.updateUsers userItems).bind fun m' => m'.updateUsers userItems).state.theta
        = (m.updateUsers userItems).state.theta := by
  obtain ⟨hf, htheta⟩ := updateUsers_then h h
  refine ⟨hf, ?_⟩
  rw [htheta, (updateUsers_of_solves h).2.1]
  refine Table.mapValues_congr fun u v _ => ?_
  rw [resolved, resolved]
  by_cases hu : u ∈ userItems
  · rw [if_pos hu, if_pos hu]
    cases m.solution userItems u <;> rfl
  · rw [if_neg hu, if_neg hu]

/-- The vectors that users have had are **forgotten**, where a row puts others in place. -/
theorem updateUsers_forgets (h : m.Solves userItems) (hhyper : m'.hyper = m.hyper)
    (hbeta : m'.beta = m.beta) (hmem : ∀ u, u ∈ m'.theta ↔ u ∈ m.theta) :
    (m'.updateUsers userItems).fault = none ∧ ∀ u ∈ userItems,
      (m'.updateUsers userItems).state.theta.get? u
        = (m.updateUsers userItems).state.theta.get? u := by
  obtain ⟨hf, htheta, -⟩ :=
    updateUsers_of_solves (h.congr hhyper hbeta (fun u => (hmem u).1) fun _ _ => rfl)
  refine ⟨hf, fun u hrow => ?_⟩
  rw [htheta, (updateUsers_of_solves h).2.1, Table.get?_mapValues, Table.get?_mapValues]
  by_cases hu : u ∈ m.theta
  · obtain ⟨v, hv⟩ := Table.exists_get? hu
    obtain ⟨v', hv'⟩ := Table.exists_get? ((hmem u).2 hu)
    obtain ⟨w, hw⟩ := h u hu hrow
    have hresolved (x : Vec ℝ n) : m.resolved userItems u x = w := by
      rw [resolved, if_pos hrow, hw]
      rfl
    have hresolved' (x : Vec ℝ n) : m'.resolved userItems u x = w := by
      rw [resolved, if_pos hrow, solution_congr hhyper hbeta rfl, hw]
      rfl
    rw [hv, hv', Option.map_some, Option.map_some, hresolved, hresolved']
  · have hnone : m.theta.get? u = none := Table.get?_eq_none_iff.2 hu
    have hnone' : m'.theta.get? u = none := Table.get?_eq_none_iff.2 (mt (hmem u).1 hu)
    rw [hnone, hnone', Option.map_none, Option.map_none]

end Model

/-- **Sweeps over users are free of order**, may be split, and forget. Where a sweep over users goes
through, so does every sweep over the same rows in another order, and any two sweeps that share the
rows between them, and the same sweep done twice, and all of them leave the same vectors of users. A
model with the same users, vectors of items and hyperparameters, whatever vectors its users have,
ends with the same vectors for the users that have rows. -/
theorem updateUsers_order_free (m : Model ℝ n) (userItems : Table Key (List Key))
    (hf : (m.updateUsers userItems).fault = none) :
    let theta := (m.updateUsers userItems).state.theta
    (∀ reordered : Table Key (List Key), reordered.entries.Perm userItems.entries →
        (m.updateUsers reordered).fault = none ∧
          (m.updateUsers reordered).state.theta = theta) ∧
      (∀ first second : Table Key (List Key),
        (first.entries ++ second.entries).Perm userItems.entries →
          let both := (m.updateUsers first).bind fun m' => m'.updateUsers second
          both.fault = none ∧ both.state.theta = theta) ∧
      (let twice := (m.updateUsers userItems).bind fun m' => m'.updateUsers userItems
       twice.fault = none ∧ twice.state.theta = theta) ∧
      ∀ m' : Model ℝ n, m'.hyper = m.hyper → m'.beta = m.beta →
        (∀ u, u ∈ m'.theta ↔ u ∈ m.theta) →
          (m'.updateUsers userItems).fault = none ∧
            ∀ u ∈ userItems, (m'.updateUsers userItems).state.theta.get? u = theta.get? u := by
  have h : m.Solves userItems := Model.updateUsers_fault_eq_none_iff_solves.1 hf
  exact ⟨fun _ => Model.updateUsers_perm h, fun _ _ => Model.updateUsers_split h,
    Model.updateUsers_twice h, fun _ => Model.updateUsers_forgets h⟩

/-- A row of a **stranger** moves about, an item is listed twice, and a user without a row has
another vector. -/
theorem updateUsers_order_free_strangers :
    let userItems : Table Key (List Key) := Table.ofList [(.text "ghost", [.text "a"]),
      (.text "u", [.text "a", .text "nobody", .text "a"]), (.text "v", [])]
    let reordered : Table Key (List Key) := Table.ofList [(.text "v", []),
      (.text "ghost", [.text "a"]), (.text "u", [.text "a", .text "nobody", .text "a"])]
    let first : Table Key (List Key) := Table.ofList [(.text "v", [])]
    let second : Table Key (List Key) := Table.ofList
      [(.text "u", [.text "a", .text "nobody", .text "a"]), (.text "ghost", [.text "a"])]
    let m : Model ℝ 1 :=
      { (Model.empty { Hyper.distrustful with observed := 2 } 0 ⟨0, 0⟩ : Model ℝ 1) with
        theta := Table.ofList [(.text "u", #v[1]), (.text "v", #v[1]), (.text "w", #v[1])]
        beta := Table.ofList [(.text "a", #v[1])] }
    let m' : Model ℝ 1 :=
      { m with theta := Table.ofList [(.text "w", #v[9]), (.text "v", #v[-7]), (.text "u", #v[5])] }
    let theta := (m.updateUsers userItems).state.theta
    let both := (m.updateUsers first).bind fun m' => m'.updateUsers second
    let twice := (m.updateUsers userItems).bind fun m' => m'.updateUsers userItems
    (m.updateUsers userItems).fault = none ∧ reordered.entries.Perm userItems.entries ∧
      (first.entries ++ second.entries).Perm userItems.entries ∧
      (∀ u, u ∈ m'.theta ↔ u ∈ m.theta) ∧
      (m.updateUsers reordered).state.theta = theta ∧ both.state.theta = theta ∧
      twice.state.theta = theta ∧
      ∀ u ∈ userItems, (m'.updateUsers userItems).state.theta.get? u = theta.get? u := by
  intro userItems reordered first second m m' theta both twice
  have hdone : (m.updateUsers userItems).fault = none :=
    Model.updateUsers_fault_eq_none_iff.2 fun u _ _ =>
      posDef_observedMatrix_of_le m.beta _ zero_le_one one_le_two zero_lt_one
  have hperm : reordered.entries.Perm userItems.entries := by decide
  have hsplit : (first.entries ++ second.entries).Perm userItems.entries := by decide
  have hmem : ∀ u, u ∈ m'.theta ↔ u ∈ m.theta := by
    have hkeys : ([.text "w", .text "v", .text "u"] : List Key).Perm
        [.text "u", .text "v", .text "w"] := by decide
    exact fun u => hkeys.mem_iff
  obtain ⟨hreordered, hboth, htwice, hforget⟩ := updateUsers_order_free m userItems hdone
  exact ⟨hdone, hperm, hsplit, hmem, (hreordered reordered hperm).2, (hboth first second hsplit).2,
    htwice.2, (hforget m' rfl rfl hmem).2⟩

end CoEmbed
