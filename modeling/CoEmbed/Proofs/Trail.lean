import CoEmbed.Proofs.Run

/-!
# The Trail of a Run

What a run has learnt after each of its iterations. A fit keeps only the last model; its trail
has those before it too.

* `Parameters` — the vectors and the biases of a model.
* `Run.trail`, `Recommender.trail` — the models of a run, and the parameters of a fit, after each
  completed iteration.
* `Run.completed_loop`, `Recommender.iterations_fitTables` — the number of sweeps is the length of
  the trail.
* `Run.model_loop_of_done`, `Recommender.parameters_fitTables` — what is kept is the last of the
  trail.

## Length convention

An iteration is completed once it is judged. One that fails, in its sweeps or in its validation,
leaves no trace.
-/

namespace CoEmbed

variable {ρ α : Type} {n : ℕ}

/-! ### Runs -/

/-- What a model has **learnt**: its vectors and its biases. -/
structure Parameters (α : Type) (n : ℕ) where
  theta : Factors α n
  beta : Factors α n
  gamma : Factors α n
  betaBias : Table Key (Bias α)
  gammaBias : Table Key (Bias α)
  globalBias : α

/-- The parameters of a model. -/
def Model.parameters (m : Model α n) : Parameters α n :=
  ⟨m.theta, m.beta, m.gamma, m.betaBias, m.gammaBias, m.globalBias⟩

namespace Run

variable [Scalar α] [One ρ] [Operand ρ α]

/-- The **trail** of a run: the model after each iteration that is completed. -/
def trail [Machine] (t : Training ρ) (rule : StopRule α) : ℕ → Run α n → List (Model α n)
  | 0, _ => []
  | left + 1, r =>
    let o := step t rule r
    match o.fault with
    | some _ => []
    | none => o.state.1.model :: if o.state.2 then [] else trail t rule left o.state.1

/-- The trail begins with the model after a completed step, and goes on **from there**. -/
theorem trail_getElem?_eq_some [Machine] {t : Training ρ} {rule : StopRule α} {left k : ℕ}
    {r : Run α n} {m : Model α n} (h : (trail t rule left r)[k]? = some m) :
    (step t rule r).fault = none ∧
      (k = 0 → m = (step t rule r).state.1.model) ∧
      ∀ j, k = j + 1 → ∃ left', (trail t rule left' (step t rule r).state.1)[j]? = some m := by
  cases left with
  | zero => cases h
  | succ left =>
      rw [trail] at h
      cases hf : (step t rule r).fault with
      | some f =>
          simp only [hf] at h
          cases h
      | none =>
          simp only [hf] at h
          refine ⟨rfl, ?_, ?_⟩
          · rintro rfl
            exact (Option.some.inj h).symm
          · rintro j rfl
            rw [List.getElem?_cons_succ] at h
            split at h
            · cases h
            · exact ⟨left, h⟩

/-- The trail has **one model for each completed iteration**, whether the run fails or not. -/
theorem completed_loop [Machine] (t : Training ρ) (rule : StopRule α) (left : ℕ) (r : Run α n) :
    (loop t rule left r).state.completed = r.completed + (trail t rule left r).length := by
  induction left generalizing r with
  | zero => rfl
  | succ left ih =>
      rw [loop, trail]
      cases hf : (step t rule r).fault with
      | some f =>
          dsimp only
          rcases step_cases t rule r with
            ⟨f, -, hstep⟩ | ⟨-, f, -, hstep⟩ | ⟨-, -, hstep⟩
          · rw [hstep]
            rfl
          · rw [hstep]
            exact (validate_model t (swept t r)).2.1
          · rw [hstep] at hf
            cases hf
      | none =>
          obtain ⟨-, -, hcompleted⟩ := step_model_of_done hf
          dsimp only
          cases (step t rule r).state.2 with
          | true => exact hcompleted
          | false =>
              refine (ih _).trans ?_
              rw [hcompleted, List.length_cons]
              simp only [Bool.false_eq_true, if_false]
              omega

/-- A run that goes through ends with **the last model of its trail**. -/
theorem model_loop_of_done [Machine] {t : Training ρ} {rule : StopRule α} {left : ℕ} {r : Run α n}
    (hf : (loop t rule left r).fault = none) :
    (loop t rule left r).state.model = ((trail t rule left r).getLast?).getD r.model := by
  induction left generalizing r with
  | zero => rfl
  | succ left ih =>
      rw [loop] at hf ⊢
      rw [trail]
      cases hs : (step t rule r).fault with
      | some f =>
          simp only [hs] at hf
          cases hf
      | none =>
          simp only [hs] at hf ⊢
          cases hstop : (step t rule r).state.2 with
          | true => rfl
          | false =>
              simp only [hstop, Bool.false_eq_true, if_false] at hf ⊢
              rw [ih hf, List.getLast?_cons, Option.getD_some]

/-- A run that goes through and may sweep has **completed an iteration**. -/
theorem exists_trail_zero [Machine] {t : Training ρ} {rule : StopRule α} {left : ℕ} {r : Run α n}
    (hf : (loop t rule (left + 1) r).fault = none) :
    ∃ m, (trail t rule (left + 1) r)[0]? = some m := by
  rw [loop] at hf
  rw [trail]
  cases hs : (step t rule r).fault with
  | some f =>
      simp only [hs] at hf
      cases hf
  | none => exact ⟨_, rfl⟩

end Run

/-! ### Fits -/

namespace Recommender

variable [Numeral α] [One ρ] [Operand ρ α]

/-- The **trail** of a fit: the number of factors and the parameters after each iteration that is
completed. -/
def trail [Machine] (r : Recommender α) (t : Training ρ) : List ((n : ℕ) × Parameters α n) :=
  match newModel r.config, schedule r.config with
  | .ok ⟨n, m⟩, .ok (rule, most) =>
    let o := registered t m
    match o.fault with
    | some _ => []
    | none => (Run.trail t rule most (Run.start o.state)).map fun m => ⟨n, m.parameters⟩
  | _, _ => []

/-- Where a fit has a trail, its model is built and registered, and its schedule is read. -/
theorem trail_eq [Machine] {r : Recommender α} {t : Training ρ} {m : Model α n} {rule : StopRule α}
    {most : ℕ} (hm : newModel r.config = .ok ⟨n, m⟩) (hs : schedule r.config = .ok (rule, most))
    (hreg : (registered t m).fault = none) :
    r.trail t = (Run.trail t rule most (Run.start (registered t m).state)).map
      fun m => ⟨n, m.parameters⟩ := by
  rw [trail]
  simp only [hm, hs, hreg]

/-- The trail of a fit is **that of its run**. -/
theorem trail_getElem?_eq_some [Machine] {r : Recommender α} {t : Training ρ} {k : ℕ}
    {P : (n : ℕ) × Parameters α n} (h : (r.trail t)[k]? = some P) :
    ∃ (n : ℕ) (m₀ : Model α n) (rule : StopRule α) (most : ℕ) (m : Model α n),
      newModel r.config = .ok ⟨n, m₀⟩ ∧ schedule r.config = .ok (rule, most) ∧
      (registered t m₀).fault = none ∧
      (Run.trail t rule most (Run.start (registered t m₀).state))[k]? = some m ∧
      P = ⟨n, m.parameters⟩ := by
  cases hm : newModel r.config with
  | error f =>
      simp only [trail, hm] at h
      cases h
  | ok p =>
      obtain ⟨n, m₀⟩ := p
      cases hs : schedule r.config with
      | error f =>
          simp only [trail, hm, hs] at h
          cases h
      | ok q =>
          obtain ⟨rule, most⟩ := q
          cases hreg : (registered t m₀).fault with
          | some f =>
              simp only [trail, hm, hs, hreg] at h
              cases h
          | none =>
              rw [trail_eq hm hs hreg, List.getElem?_map, Option.map_eq_some_iff] at h
              obtain ⟨m, hk, hP⟩ := h
              exact ⟨n, m₀, rule, most, m, rfl, rfl, hreg, hk, hP.symm⟩

/-- A fit that goes through and may sweep has **completed an iteration**. -/
theorem exists_trail_zero [Machine] {r : Recommender α} {t : Training ρ} {rule : StopRule α}
    {most : ℕ} (hs : schedule r.config = .ok (rule, most + 1))
    (hf : (r.fitTables t).fault = none) :
    ∃ P, (r.trail t)[0]? = some P := by
  obtain ⟨n, m, rule', most', hm, hs', hreg, hloop, -⟩ := fitTables_of_done hf
  obtain ⟨rfl, rfl⟩ := Prod.mk.inj (Except.ok.inj (hs.symm.trans hs'))
  obtain ⟨m', hm'⟩ := Run.exists_trail_zero hloop
  refine ⟨⟨n, m'.parameters⟩, ?_⟩
  rw [trail_eq hm hs hreg, List.getElem?_map, hm', Option.map_some]

/-- A fit **notes the length of its trail**, whether it fails or not; one that completes no
iteration notes nothing. -/
theorem iterations_fitTables [Machine] (r : Recommender α) (t : Training ρ) :
    (r.fitTables t).state.iterations
      = if (r.trail t).length = 0 then r.iterations else (r.trail t).length := by
  rw [fitTables]
  cases hm : newModel r.config with
  | error f => simp only [trail, hm, List.length_nil, if_true, Outcome.failed]
  | ok p =>
      obtain ⟨n, m⟩ := p
      simp only [train]
      cases hreg : (registered t m).fault with
      | some f =>
          have hnil : r.trail t = [] := by
            rw [trail]
            cases hs : schedule r.config <;> simp only [hm, hreg]
          rw [hnil]
          rfl
      | none =>
          cases hs : schedule r.config with
          | error f =>
              have hnil : r.trail t = [] := by
                rw [trail]
                simp only [hm, hs]
              rw [hnil]
              rfl
          | ok q =>
              obtain ⟨rule, most⟩ := q
              have hlength :
                  (Run.loop t rule most (Run.start (registered t m).state)).state.completed
                    = (r.trail t).length := by
                rw [Run.completed_loop, trail_eq hm hs hreg, List.length_map]
                exact Nat.zero_add _
              rw [← hlength]
              dsimp only
              cases (Run.loop t rule most (Run.start (registered t m).state)).fault <;> rfl

/-- A fit that goes through **keeps the last of its trail**. -/
theorem parameters_fitTables [Machine] {r : Recommender α} {t : Training ρ}
    (hf : (r.fitTables t).fault = none) :
    ∃ f, (r.fitTables t).state.fitted = some f ∧
      ∀ P ∈ (r.trail t).getLast?, P = ⟨f.factor, f.model.parameters⟩ := by
  obtain ⟨n, m, rule, most, hm, hs, hreg, hloop, hfitted⟩ := fitTables_of_done hf
  refine ⟨_, hfitted, fun P hP => ?_⟩
  rw [trail_eq hm hs hreg, List.getLast?_map] at hP
  obtain ⟨m', hlast, rfl⟩ := Option.map_eq_some_iff.1 hP
  rw [Run.model_loop_of_done hloop, hlast, Option.getD_some]

end Recommender

end CoEmbed
