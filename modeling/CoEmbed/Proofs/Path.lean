import CoEmbed.Proofs.Trail

/-!
# The Path of a Run

The verdict on an iteration decides whether there is another one, and nothing else. So there is
one path that a run would follow if no verdict were heeded, and under every rule a run follows it
from the start up to the first verdict to stop.

* `Run.step_congr_rule` — what an iteration does is the same under every rule.
* `Run.path` — the run before each iteration that is completed, whatever the verdicts are.
* `Run.path_prefix` — a run that may sweep more often follows the same path for longer.
* `Run.recorded`, `Run.stops` — what an iteration records, and the verdict on it.
* `Run.history_loop`, `Run.length_followed_of_done` — a run follows the path up to the first verdict
  to stop.
* `Recommender.along` — what a function says along the path of a fit.

## Fault convention

A path ends before the first iteration that fails. A run that goes through has been stopped before
it comes to that.
-/

namespace CoEmbed

variable {ρ α : Type} [Machine] {n : ℕ}

namespace Run

variable [Scalar α] [One ρ] [Operand ρ α]

/-! ### Iterations -/

/-- What the next iteration **records**. -/
def recorded (t : Training ρ) (r : Run α n) : α :=
  let v := validate t (swept t r)
  v.state.1.progress.average v.state.2

/-- The **verdict** on the next iteration. -/
def stops (t : Training ρ) (rule : StopRule α) (r : Run α n) : Bool := (step t rule r).state.2
/-- What an iteration does is **the same under every rule**. -/
theorem step_congr_rule (t : Training ρ) (rule rule' : StopRule α) (r : Run α n) :
    (step t rule r).fault = (step t rule' r).fault ∧
      (step t rule r).state.1 = (step t rule' r).state.1 := by
  rcases step_cases t rule r with ⟨f, hf, h⟩ | ⟨hs, f, hf, h⟩ | ⟨hs, hf, h⟩
  · rcases step_cases t rule' r with ⟨f', hf', h'⟩ | ⟨hs', -⟩ | ⟨hs', -⟩
    · rw [h, h', Option.some.inj (hf.symm.trans hf')]
      exact ⟨rfl, rfl⟩
    · rw [hf] at hs'
      cases hs'
    · rw [hf] at hs'
      cases hs'
  · rcases step_cases t rule' r with ⟨f', hf', -⟩ | ⟨-, f', hf', h'⟩ | ⟨-, hf', -⟩
    · rw [hs] at hf'
      cases hf'
    · rw [h, h', Option.some.inj (hf.symm.trans hf')]
      exact ⟨rfl, rfl⟩
    · rw [hf] at hf'
      cases hf'
  · rcases step_cases t rule' r with ⟨f', hf', -⟩ | ⟨-, f', hf', -⟩ | ⟨-, -, h'⟩
    · rw [hs] at hf'
      cases hf'
    · rw [hf] at hf'
      cases hf'
    · rw [h, h']
      exact ⟨rfl, rfl⟩

/-- A completed iteration **records one average** and is judged by its losses. -/
theorem step_of_done {t : Training ρ} {rule : StopRule α} {r : Run α n}
    (hf : (step t rule r).fault = none) :
    (step t rule r).state.1.progress.history = r.progress.history ++ [recorded t r] ∧
      stops t rule r = (validate t (swept t r)).state.1.progress.settled rule := by
  rcases step_cases t rule r with ⟨f, -, h⟩ | ⟨-, f, -, h⟩ | ⟨-, -, h⟩
  · rw [h] at hf
    cases hf
  · rw [h] at hf
    cases hf
  · rw [stops, h]
    refine ⟨?_, rfl⟩
    change (validate t (swept t r)).state.1.progress.history ++ [recorded t r] = _
    rw [(validate_model t (swept t r)).2.2]
    rfl

/-- An iteration that fails **records nothing**. -/
theorem step_history_of_fault {t : Training ρ} {rule : StopRule α} {r : Run α n} {f : Fault}
    (hf : (step t rule r).fault = some f) :
    (step t rule r).state.1.progress.history = r.progress.history := by
  rcases step_cases t rule r with ⟨f, -, h⟩ | ⟨-, f, -, h⟩ | ⟨-, -, h⟩
  · rw [h]
    rfl
  · rw [h]
    exact (validate_model t (swept t r)).2.2
  · rw [h] at hf
    cases hf

/-! ### Paths -/

/-- The **path** of a run: the run before each iteration that is completed, if no verdict is
heeded. -/
def path (t : Training ρ) (rule : StopRule α) : ℕ → Run α n → List (Run α n)
  | 0, _ => []
  | left + 1, r =>
    let o := step t rule r
    match o.fault with
    | some _ => []
    | none => r :: path t rule left o.state.1

theorem path_succ_of_done {t : Training ρ} {rule : StopRule α} {r : Run α n} (left : ℕ)
    (hf : (step t rule r).fault = none) :
    path t rule (left + 1) r = r :: path t rule left (step t rule r).state.1 := by
  rw [path]
  simp only [hf]

theorem path_succ_of_fault {t : Training ρ} {rule : StopRule α} {r : Run α n} {f : Fault}
    (left : ℕ) (hf : (step t rule r).fault = some f) : path t rule (left + 1) r = [] := by
  rw [path]
  simp only [hf]

/-- There is **one path** for all rules. -/
theorem path_congr_rule (t : Training ρ) (rule rule' : StopRule α) (left : ℕ) (r : Run α n) :
    path t rule left r = path t rule' left r := by
  induction left generalizing r with
  | zero => rfl
  | succ left ih =>
      obtain ⟨hfault, hstate⟩ := step_congr_rule t rule rule' r
      cases hf : (step t rule' r).fault with
      | some f => rw [path_succ_of_fault left hf, path_succ_of_fault left (hfault.trans hf)]
      | none => rw [path_succ_of_done left hf, path_succ_of_done left (hfault.trans hf), hstate, ih]

/-- A run that may sweep **more often** follows the same path for longer. -/
theorem path_prefix (t : Training ρ) (rule : StopRule α) {left left' : ℕ} (h : left ≤ left')
    (r : Run α n) : path t rule left r <+: path t rule left' r := by
  induction left generalizing left' r with
  | zero => exact List.nil_prefix
  | succ left ih =>
      obtain ⟨left', rfl⟩ : ∃ k, left' = k + 1 := ⟨left' - 1, by omega⟩
      cases hf : (step t rule r).fault with
      | some f =>
          rw [path_succ_of_fault left hf]
          exact List.nil_prefix
      | none =>
          rw [path_succ_of_done left hf, path_succ_of_done left' hf]
          exact List.cons_prefix_cons.2 ⟨rfl, ih (by omega) _⟩

/-- What holds before a run, and is kept by every completed iteration, holds **along the path**. -/
theorem forall_mem_path {t : Training ρ} {rule : StopRule α} {P : Run α n → Prop}
    (hstep : ∀ r, P r → (step t rule r).fault = none → P (step t rule r).state.1) {left : ℕ}
    {r : Run α n} (h : P r) : ∀ q ∈ path t rule left r, P q ∧ (step t rule q).fault = none := by
  induction left generalizing r with
  | zero => exact fun q hq => absurd hq List.not_mem_nil
  | succ left ih =>
      cases hf : (step t rule r).fault with
      | some f =>
          rw [path_succ_of_fault left hf]
          exact fun q hq => absurd hq List.not_mem_nil
      | none =>
          rw [path_succ_of_done left hf]
          rintro q (_ | ⟨_, hq⟩)
          · exact ⟨h, hf⟩
          · exact ih (hstep r h hf) q hq

/-- The iterations of a path are **completed**. -/
theorem step_done_of_mem_path {t : Training ρ} {rule : StopRule α} {left : ℕ} {r q : Run α n}
    (hq : q ∈ path t rule left r) : (step t rule q).fault = none :=
  (forall_mem_path (P := fun _ => True) (fun _ _ _ => trivial) trivial q hq).2

/-- The part of a path up to and with **the first verdict** to stop. -/
def followed (t : Training ρ) (rule : StopRule α) (left : ℕ) (r : Run α n) : List (Run α n) :=
  (path t rule left r).take ((path t rule left r).findIdx (stops t rule) + 1)

/-- A run **follows its path** from its first iteration on: up to the first verdict to stop, or to
the first iteration that fails. -/
theorem followed_succ (t : Training ρ) (rule : StopRule α) (left : ℕ) (r : Run α n) :
    followed t rule (left + 1) r = match (step t rule r).fault with
      | some _ => []
      | none =>
        r :: if stops t rule r then [] else followed t rule left (step t rule r).state.1 := by
  cases hf : (step t rule r).fault with
  | some f =>
      rw [followed, path_succ_of_fault left hf]
      rfl
  | none =>
      rw [followed, path_succ_of_done left hf, List.findIdx_cons]
      cases stops t rule r <;> rfl

/-- A run records **the averages of the iterations that it follows**, whether it fails or not. -/
theorem history_loop (t : Training ρ) (rule : StopRule α) (left : ℕ) (r : Run α n) :
    (loop t rule left r).state.progress.history
      = r.progress.history ++ (followed t rule left r).map (recorded t) := by
  induction left generalizing r with
  | zero => exact (List.append_nil _).symm
  | succ left ih =>
      rw [loop, followed_succ]
      cases hf : (step t rule r).fault with
      | some f =>
          dsimp only
          rw [List.map_nil, List.append_nil]
          exact step_history_of_fault hf
      | none =>
          obtain ⟨hhistory, -⟩ := step_of_done hf
          dsimp only
          rw [stops]
          cases (step t rule r).state.2 with
          | true => exact hhistory
          | false =>
              simp only [Bool.false_eq_true, if_false]
              rw [ih, hhistory, List.map_cons, List.append_assoc, List.singleton_append]

/-- The trail of a run has the model after **each iteration that it follows**. -/
theorem trail_eq_followed (t : Training ρ) (rule : StopRule α) (left : ℕ) (r : Run α n) :
    trail t rule left r = (followed t rule left r).map fun q => (step t rule q).state.1.model := by
  induction left generalizing r with
  | zero => rfl
  | succ left ih =>
      rw [trail, followed_succ]
      cases hf : (step t rule r).fault with
      | some f => rfl
      | none =>
          dsimp only
          rw [stops]
          cases (step t rule r).state.2 with
          | true => rfl
          | false => exact congrArg (List.cons _) (ih _)

/-- A run that goes through is told to stop in its last iteration, or has swept **as often as it
may**. -/
theorem length_followed_of_done {t : Training ρ} {rule : StopRule α} {left : ℕ} {r : Run α n}
    (hf : (loop t rule left r).fault = none) :
    (followed t rule left r).length
      = min left ((path t rule left r).findIdx (stops t rule) + 1) := by
  induction left generalizing r with
  | zero => rfl
  | succ left ih =>
      rw [loop] at hf
      cases hs : (step t rule r).fault with
      | some f =>
          simp only [hs] at hf
          cases hf
      | none =>
          simp only [hs] at hf
          rw [followed_succ, hs, path_succ_of_done left hs, List.findIdx_cons]
          rw [stops] at *
          cases hstop : (step t rule r).state.2 with
          | true => exact (Nat.min_eq_right (Nat.le_add_left 1 left)).symm
          | false =>
              simp only [hstop, Bool.false_eq_true, if_false] at hf
              refine (congrArg Nat.succ (ih hf)).trans ?_
              exact (Nat.succ_min_succ left _).symm

end Run

/-! ### Fits -/

namespace Recommender

variable [Numeral α] [One ρ] [Operand ρ α]

/-- What a function says **along the path** of a fit, iteration by iteration. -/
def along {β : Type} (g : ∀ {n : ℕ}, StopRule α → Run α n → β) (r : Recommender α)
    (t : Training ρ) : List β :=
  match newModel r.config, schedule r.config with
  | .ok ⟨_, m⟩, .ok (rule, most) =>
    let o := registered t m
    match o.fault with
    | some _ => []
    | none => (Run.path t rule most (Run.start o.state)).map (g rule)
  | _, _ => []

theorem along_eq {β : Type} (g : ∀ {n : ℕ}, StopRule α → Run α n → β) {r : Recommender α}
    {t : Training ρ} {m : Model α n} {rule : StopRule α} {most : ℕ}
    (hm : newModel r.config = .ok ⟨n, m⟩) (hs : schedule r.config = .ok (rule, most))
    (hreg : (registered t m).fault = none) :
    r.along g t = (Run.path t rule most (Run.start (registered t m).state)).map (g rule) := by
  rw [along]
  simp only [hm, hs, hreg]

/-- A fit **begins** with a model that is registered and a schedule that is read; where one of them
is missing, there is neither a path nor a trail. -/
theorem along_cases (r : Recommender α) (t : Training ρ) :
    ((∀ {β : Type} (g : ∀ {n : ℕ}, StopRule α → Run α n → β), r.along g t = []) ∧
      r.trail t = []) ∨
    ∃ (n : ℕ) (m : Model α n) (rule : StopRule α) (most : ℕ), newModel r.config = .ok ⟨n, m⟩ ∧
      schedule r.config = .ok (rule, most) ∧ (registered t m).fault = none := by
  cases hm : newModel r.config with
  | error f => exact .inl ⟨fun g => by simp only [along, hm], by simp only [trail, hm]⟩
  | ok p =>
      obtain ⟨n, m⟩ := p
      cases hs : schedule r.config with
      | error f => exact .inl ⟨fun g => by simp only [along, hm, hs], by simp only [trail, hm, hs]⟩
      | ok q =>
          obtain ⟨rule, most⟩ := q
          cases hreg : (registered t m).fault with
          | some f =>
              exact .inl ⟨fun g => by simp only [along, hm, hs, hreg],
                by simp only [trail, hm, hs, hreg]⟩
          | none => exact .inr ⟨n, m, rule, most, rfl, rfl, hreg⟩

/-- The averages that a fit **would record** if no verdict were heeded. -/
def averages (r : Recommender α) (t : Training ρ) : List α :=
  r.along (fun _ q => Run.recorded t q) t

/-- The **verdicts** on the iterations of a fit, whether they are heeded or not. -/
def verdicts (r : Recommender α) (t : Training ρ) : List Bool :=
  r.along (fun rule q => Run.stops t rule q) t

/-- What a function says along the path **up to the first verdict to stop** is what it says of the
iterations that the fit follows. -/
theorem along_take {β : Type} (g : ∀ {n : ℕ}, StopRule α → Run α n → β) {r : Recommender α}
    {t : Training ρ} {m : Model α n} {rule : StopRule α} {most : ℕ}
    (hm : newModel r.config = .ok ⟨n, m⟩) (hs : schedule r.config = .ok (rule, most))
    (hreg : (registered t m).fault = none) :
    (r.along g t).take ((r.verdicts t).findIdx id + 1)
      = (Run.followed t rule most (Run.start (registered t m).state)).map (g rule) := by
  rw [verdicts, along_eq _ hm hs hreg, along_eq _ hm hs hreg, List.findIdx_map, ← List.map_take]
  rfl

/-- A fit that goes through records the averages of its path **up to the first verdict to stop**; if
there is none, up to the greatest number of sweeps. -/
theorem history_of_done {r : Recommender α} {t : Training ρ} (hf : (r.fitTables t).fault = none) :
    ∃ f rule most, (r.fitTables t).state.fitted = some f ∧
      schedule r.config = .ok (rule, most) ∧
      f.history = (r.averages t).take ((r.verdicts t).findIdx id + 1) ∧
      f.history.length = min most ((r.verdicts t).findIdx id + 1) ∧
      (1 ≤ most → (r.fitTables t).state.iterations = f.history.length) := by
  obtain ⟨n, m, rule, most, hm, hs, hreg, hloop, hfitted⟩ := fitTables_of_done hf
  have hhistory := Run.history_loop t rule most (Run.start (registered t m).state)
  have hlength := Run.length_followed_of_done hloop
  have hverdicts : (r.verdicts t).findIdx id
      = (Run.path t rule most (Run.start (registered t m).state)).findIdx (Run.stops t rule) := by
    rw [verdicts, along_eq _ hm hs hreg, List.findIdx_map]
    rfl
  have hstart : (Run.start (registered t m).state).progress.history = [] := rfl
  rw [hstart, List.nil_append] at hhistory
  refine ⟨_, rule, most, hfitted, hs, ?_, ?_, fun hmost => ?_⟩
  · rw [averages, along_take _ hm hs hreg]
    exact hhistory
  · rw [hverdicts]
    dsimp only
    rw [hhistory, List.length_map, hlength]
  · dsimp only
    rw [iterations_fitTables, trail_eq hm hs hreg, List.length_map, Run.trail_eq_followed,
      List.length_map, hhistory, List.length_map, if_neg (by omega)]

end Recommender

end CoEmbed
