import CoEmbed.Recommender
import CoEmbed.Proofs.Outcome
import CoEmbed.Proofs.Sweep
import CoEmbed.Proofs.Table

/-!
# Runs

What one step of a run can do, and what holds of all steps until the rule says stop.

* `Model.Covers` — the registered keys are those of the tables.
* `Model.iterate` — a sweep over users and the sweep over items after it.
* `Run.step_cases` — all that a step of a run can do.
* `Run.validatePair_of_done` — what the validation of a pair adds.
* `Run.validate_model` — a validation changes nothing of the model but its source.
* `Run.loop_invariant`, `Run.loop_done` — what every step keeps holds in the end, and steps that
  never fail make a run that does not.
* `Recommender.fitTables_of_done` — a fit that goes through is a run that goes through.
* `Settings.Describes`, `Recommender.newModel_eq_ok`, `Recommender.registered_of_done` — where a
  run starts.

## Source convention

Vectors are drawn when their keys are registered and never again. Whatever a validation draws
from the source, no later sweep looks at it.
-/

namespace CoEmbed

variable {ρ α : Type} {n : Nat}

/-! ### Models -/

namespace Model

/-- The model **covers** its tables: the registered users and items are those that have a
row. -/
structure Covers (m : Model α n) (t : Training ρ) : Prop where
  theta : ∀ k, k ∈ m.theta ↔ k ∈ t.userItems
  beta : ∀ k, k ∈ m.beta ↔ k ∈ t.itemUsers
  gamma : ∀ k, k ∈ m.gamma ↔ k ∈ t.itemUsers
  betaBias : ∀ k, k ∈ m.betaBias ↔ k ∈ t.itemUsers
  gammaBias : ∀ k, k ∈ m.gammaBias ↔ k ∈ t.itemUsers

/-- A model with the same keys covers the same tables. -/
theorem Covers.of_frame {m m' : Model α n} {t : Training ρ} (hm : m.Covers t)
    (h : m.Frame m') : m'.Covers t := by
  refine ⟨fun k => ?_, fun k => ?_, fun k => ?_, fun k => ?_, fun k => ?_⟩
  · rw [← hm.theta k, Table.mem_iff, h.theta, ← Table.mem_iff]
  · rw [← hm.beta k, Table.mem_iff, h.beta, ← Table.mem_iff]
  · rw [← hm.gamma k, Table.mem_iff, h.gamma, ← Table.mem_iff]
  · rw [← hm.betaBias k, Table.mem_iff, h.betaBias, ← Table.mem_iff]
  · rw [← hm.gammaBias k, Table.mem_iff, h.gammaBias, ← Table.mem_iff]

/-- The model with another **source**. -/
def withSource (m : Model α n) (s : Source) : Model α n := { m with source := s }

theorem Frame.withSource (m : Model α n) (s : Source) : Frame m (m.withSource s) :=
  ⟨rfl, rfl, rfl, rfl, rfl, rfl, rfl⟩

/-- One **iteration**: a sweep over users, and a sweep over items after it. -/
def iterate [Scalar α] [Operand ρ α] (m : Model α n) (t : Training ρ) : Outcome (Model α n) :=
  (m.updateUsers t.userItems).bind fun m => m.updateItems t.itemUsers t.rows

end Model

/-! ### Steps -/

namespace Run

/-- Steps on the model, one after the other, are **one step on the model**. -/
theorem onModel_bind (r : Run α n) (f g : Model α n → Outcome (Model α n)) :
    ((r.onModel f).bind fun r => r.onModel g) = r.onModel fun m => (f m).bind g := by
  cases h : (f r.model).fault with
  | none =>
      have hr : (r.onModel f).fault = none := h
      rw [Outcome.bind_of_done hr]
      simp only [onModel, Outcome.bind_of_done h]
  | some e =>
      have hr : (r.onModel f).fault = some e := h
      rw [Outcome.bind_of_fault hr]
      simp only [onModel, Outcome.bind_of_fault h]

section

variable [Scalar α]

variable [Machine]

/-- The validation of a pair changes **the source of the model** and nothing else of it, and records
nothing. -/
theorem validatePair_model (s : Run α n × Nat) (pair : Key × Key) :
    (∃ source, (validatePair s pair).state.1.model = s.1.model.withSource source) ∧
      (validatePair s pair).state.1.completed = s.1.completed ∧
      (validatePair s pair).state.1.progress.history = s.1.progress.history := by
  rw [validatePair]
  rcases s.1.model.validate pair.1 pair.2 with ⟨loss, source⟩
  cases loss with
  | error f => exact ⟨⟨source, rfl⟩, rfl, rfl⟩
  | ok o =>
      cases o with
      | none => exact ⟨⟨source, rfl⟩, rfl, rfl⟩
      | some x =>
          dsimp only [report, Progress.report]
          cases Scalar.exceptional? x <;> exact ⟨⟨source, rfl⟩, rfl, rfl⟩

omit [Machine] in
/-- A loss that can be reported is **added**. -/
theorem report_of_done {r : Run α n} {x : α} (hf : (r.report x).fault = none) :
    (r.report x).state
      = { r with progress := { r.progress with current := r.progress.current + x } } := by
  rw [report, Progress.report] at hf ⊢
  cases hx : Scalar.exceptional? x with
  | some e =>
      simp only [hx] at hf
      cases hf
  | none => rfl

/-- A validation of a pair that is no fault **adds its loss and counts it**, or finds none. -/
theorem validatePair_of_done {s : Run α n × ℕ} {p : Key × Key}
    (hf : (validatePair s p).fault = none) :
    (∃ x, (s.1.model.validate p.1 p.2).1 = .ok (some x) ∧ (validatePair s p).state
      = ({ s.1 with
          model := s.1.model.withSource (s.1.model.validate p.1 p.2).2
          progress := { s.1.progress with current := s.1.progress.current + x } }, s.2 + 1)) ∨
    ((s.1.model.validate p.1 p.2).1 = .ok none ∧ (validatePair s p).state
      = ({ s.1 with model := s.1.model.withSource (s.1.model.validate p.1 p.2).2 }, s.2)) := by
  rw [validatePair] at hf ⊢
  cases hv : s.1.model.validate p.1 p.2 with
  | mk loss source =>
      simp only [hv] at hf ⊢
      cases loss with
      | error f => cases hf
      | ok o =>
          cases o with
          | none => exact .inr ⟨rfl, rfl⟩
          | some x => exact .inl ⟨x, rfl, congrArg (·, s.2 + 1) (report_of_done hf)⟩

variable [One ρ] [Operand ρ α]

/-- A **validation** changes the source of the model and nothing else of it, and records nothing. -/
theorem validate_model (t : Training ρ) (r : Run α n) :
    (∃ source, (validate t r).state.1.model = r.model.withSource source) ∧
      (validate t r).state.1.completed = r.completed ∧
      (validate t r).state.1.progress.history = r.progress.history := by
  let P : Run α n × Nat → Prop := fun s => (∃ source, s.1.model = r.model.withSource source) ∧
    s.1.completed = r.completed ∧ s.1.progress.history = r.progress.history
  have heach : P (Outcome.each validatePair (r, 0) t.heldOut).state := by
    refine Outcome.each_invariant validatePair P ?_ _ _ ⟨⟨_, rfl⟩, rfl, rfl⟩
    rintro s pair ⟨⟨source, hs⟩, hc, hh⟩
    obtain ⟨⟨source', hs'⟩, hc', hh'⟩ := validatePair_model s pair
    exact ⟨⟨source', by rw [hs', hs]; rfl⟩, hc'.trans hc, hh'.trans hh⟩
  rw [validate]
  refine Outcome.bind_invariant (P := P) heach fun hs => ?_
  split
  · exact hs
  · split
    · exact hs
    · next loss _ =>
        dsimp only [report, Progress.report]
        cases Scalar.exceptional? loss <;> exact hs

/-- The run with the next sweep begun and its model swept. -/
def swept (t : Training ρ) (r : Run α n) : Run α n :=
  { r with progress := r.progress.next, model := (r.model.iterate t).state }

/-- A **step** of a run fails in its sweeps, fails in its validation, or is completed and
judged. -/
theorem step_cases (t : Training ρ) (rule : StopRule α) (r : Run α n) :
    (∃ f, (r.model.iterate t).fault = some f ∧ step t rule r = .failed (swept t r, false) f) ∨
    ((r.model.iterate t).fault = none ∧ ∃ f, (validate t (swept t r)).fault = some f ∧
      step t rule r = .failed ((validate t (swept t r)).state.1, false) f) ∨
    ((r.model.iterate t).fault = none ∧ (validate t (swept t r)).fault = none ∧
      step t rule r = .done
        ({ (validate t (swept t r)).state.1 with
            progress := ((validate t (swept t r)).state.1.progress.judge rule
              (validate t (swept t r)).state.2).1
            completed := r.completed + 1 },
          ((validate t (swept t r)).state.1.progress.judge rule
            (validate t (swept t r)).state.2).2)) := by
  have hsweeps : ((({ r with progress := r.progress.next } : Run α n).onModel fun m =>
        m.updateUsers t.userItems).bind fun r => r.onModel fun m =>
          m.updateItems t.itemUsers t.rows) = ⟨swept t r, (r.model.iterate t).fault⟩ := by
    rw [onModel_bind]
    rfl
  rw [step]
  simp only [hsweeps]
  cases hf : (r.model.iterate t).fault with
  | some f => exact .inl ⟨f, rfl, rfl⟩
  | none =>
      cases hv : (validate t (swept t r)).fault with
      | some f => exact .inr (.inl ⟨rfl, f, rfl, rfl⟩)
      | none => exact .inr (.inr ⟨rfl, rfl, rfl⟩)

/-- A completed step leaves the model **as its iteration has left it**, but for the source. -/
theorem step_model_of_done {t : Training ρ} {rule : StopRule α} {r : Run α n}
    (hf : (step t rule r).fault = none) :
    (r.model.iterate t).fault = none ∧
      (∃ source, (step t rule r).state.1.model = (r.model.iterate t).state.withSource source) ∧
      (step t rule r).state.1.completed = r.completed + 1 := by
  rcases step_cases t rule r with
    ⟨f, -, hstep⟩ | ⟨-, f, -, hstep⟩ | ⟨hiter, -, hstep⟩
  · rw [hstep] at hf
    cases hf
  · rw [hstep] at hf
    cases hf
  · rw [hstep]
    exact ⟨hiter, (validate_model t (swept t r)).1, rfl⟩

/-- A completed step has gone through **its validation**. -/
theorem validate_done_of_step {t : Training ρ} {rule : StopRule α} {r : Run α n}
    (hf : (step t rule r).fault = none) : (validate t (swept t r)).fault = none := by
  rcases step_cases t rule r with ⟨f, -, h⟩ | ⟨-, f, -, h⟩ | ⟨-, hvalid, -⟩
  · rw [h] at hf
    cases hf
  · rw [h] at hf
    cases hf
  · exact hvalid

/-- What **every completed step keeps** holds at the end of a run that goes through. -/
theorem loop_invariant {t : Training ρ} {rule : StopRule α} (P : Run α n → Prop)
    (hstep : ∀ r, P r → (step t rule r).fault = none → P (step t rule r).state.1) {left : Nat}
    {r : Run α n} (h : P r) (hf : (loop t rule left r).fault = none) :
    P (loop t rule left r).state := by
  induction left generalizing r with
  | zero => exact h
  | succ left ih =>
      rw [loop] at hf ⊢
      cases hs : (step t rule r).fault with
      | some f =>
          simp only [hs] at hf
          cases hf
      | none =>
          simp only [hs] at hf ⊢
          have hnext := hstep r h hs
          cases hstop : (step t rule r).state.2 with
          | true => exact hnext
          | false =>
              simp only [hstop] at hf
              exact ih hnext hf

/-- Steps that **never fail** where something holds, and keep it, make a run that goes through. -/
theorem loop_done {t : Training ρ} {rule : StopRule α} (P : Run α n → Prop)
    (hstep : ∀ r, P r → (step t rule r).fault = none ∧ P (step t rule r).state.1) {left : Nat}
    {r : Run α n} (h : P r) : (loop t rule left r).fault = none := by
  induction left generalizing r with
  | zero => rfl
  | succ left ih =>
      obtain ⟨hdone, hnext⟩ := hstep r h
      rw [loop]
      simp only [hdone]
      split
      · rfl
      · exact ih hnext

end

end Run

/-! ### Registration -/

/-- A condition that is refused **does not hold** where nothing is refused. -/
theorem refuseIf_eq_ok_iff {c : Bool} {r : Refusal} {u : Unit} :
    refuseIf c r = .ok u ↔ c = false := by
  cases c with
  | true =>
      constructor
      · intro h
        cases h
      · intro h
        cases h
  | false => exact ⟨fun _ => rfl, fun _ => rfl⟩

/-- What a model **takes from its settings**; it learns the global bias only if it has biases. -/
structure Settings.Describes [Numeral α] (s : Settings α) (n : ℕ) (hyper : Hyper α)
    (globalBias : α) : Prop where
  factor : Model.factorCount (s .factor) = .ok n
  unobserved : (s .unobserved).scalar = .ok hyper.unobserved
  observed : (s .observed).scalar = .ok hyper.observed
  ridgeTheta : (s .ridgeTheta).scalar = .ok hyper.ridgeTheta
  ridgeBeta : (s .ridgeBeta).scalar = .ok hyper.ridgeBeta
  ridgeGamma : (s .ridgeGamma).scalar = .ok hyper.ridgeGamma
  globalBias : (s .globalBias).scalar = .ok globalBias
  metric : Metric.ofSetting (s .metric) = .ok hyper.metric
  negatives : (s .negatives).whole = .ok hyper.negatives
  useBias : (s .useBias).holds = hyper.useBias
  updateGlobalBias : (s .updateGlobalBias).holds = hyper.updateGlobalBias
  biased : hyper.updateGlobalBias = true → hyper.useBias = true

namespace Model

/-- The **initial model** of some settings has no parameters but the global bias. -/
theorem ofSettings_eq_ok [Numeral α] {s : Settings α} {init : Option (VectorInit α)}
    {source : Source} {m : (n : ℕ) × Model α n} (h : ofSettings s init source = .ok m) :
    ∃ (hyper : Hyper α) (globalBias : α), m = ⟨m.1, empty hyper globalBias source⟩ ∧
      s.Describes m.1 hyper globalBias ∧ ∀ given, init = some given → hyper.init = given := by
  rw [ofSettings] at h
  obtain ⟨n, hfactor, h⟩ := bind_eq_ok_iff.1 h
  obtain ⟨negative, -, h⟩ := bind_eq_ok_iff.1 h
  obtain ⟨-, -, h⟩ := bind_eq_ok_iff.1 h
  obtain ⟨least, -, h⟩ := bind_eq_ok_iff.1 h
  obtain ⟨-, -, h⟩ := bind_eq_ok_iff.1 h
  obtain ⟨done, hbias, h⟩ := bind_eq_ok_iff.1 h
  obtain ⟨metric, hmetric, h⟩ := bind_eq_ok_iff.1 h
  obtain ⟨few, -, h⟩ := bind_eq_ok_iff.1 h
  obtain ⟨-, -, h⟩ := bind_eq_ok_iff.1 h
  extract_lets rest at h
  obtain ⟨init', hinit, h⟩ : ∃ init', (∀ given, init = some given → init' = given) ∧
      rest init' = .ok m := by
    cases init with
    | some given => exact ⟨given, fun _ heq => Option.some.inj heq, h⟩
    | none =>
        obtain ⟨drawn, -, h⟩ := bind_eq_ok_iff.1 h
        exact ⟨drawn, nofun, h⟩
  obtain ⟨c₀, hc₀, h⟩ := bind_eq_ok_iff.1 h
  obtain ⟨c₁, hc₁, h⟩ := bind_eq_ok_iff.1 h
  obtain ⟨ridgeTheta, htheta, h⟩ := bind_eq_ok_iff.1 h
  obtain ⟨ridgeBeta, hbeta, h⟩ := bind_eq_ok_iff.1 h
  obtain ⟨ridgeGamma, hgamma, h⟩ := bind_eq_ok_iff.1 h
  obtain ⟨globalBias, hglobal, h⟩ := bind_eq_ok_iff.1 h
  obtain ⟨negatives, hnegatives, h⟩ := bind_eq_ok_iff.1 h
  obtain rfl := Except.ok.inj h
  refine ⟨_, globalBias, rfl, ⟨hfactor, hc₀, hc₁, htheta, hbeta, hgamma, hglobal, hmetric,
    hnegatives, rfl, rfl, fun hup => ?_⟩, hinit⟩
  have hrefused : ((s .updateGlobalBias).holds && !(s .useBias).holds) = false :=
    refuseIf_eq_ok_iff.1 hbias
  change (s .useBias).holds = true
  change (s .updateGlobalBias).holds = true at hup
  rwa [hup, Bool.true_and, Bool.not_eq_false'] at hrefused

/-- The settings of a model that **ranks** ask for at least one item to be sampled. -/
theorem below_negatives_of_ofSettings [Numeral α] {s : Settings α} {init : Option (VectorInit α)}
    {source : Source} {m : (n : ℕ) × Model α n} (h : ofSettings s init source = .ok m)
    (hmetric : Metric.ofSetting (s .metric) = .ok .auc) : (s .negatives).below 1 = .ok false := by
  obtain ⟨n, -, h⟩ := bind_eq_ok_iff.1 h
  obtain ⟨negative, -, h⟩ := bind_eq_ok_iff.1 h
  obtain ⟨-, -, h⟩ := bind_eq_ok_iff.1 h
  obtain ⟨least, -, h⟩ := bind_eq_ok_iff.1 h
  obtain ⟨-, -, h⟩ := bind_eq_ok_iff.1 h
  obtain ⟨-, -, h⟩ := bind_eq_ok_iff.1 h
  obtain ⟨metric, hmetric', h⟩ := bind_eq_ok_iff.1 h
  obtain rfl : metric = .auc := Except.ok.inj (hmetric'.symm.trans hmetric)
  obtain ⟨few, hfew, h⟩ := bind_eq_ok_iff.1 h
  obtain ⟨_, hfew', -⟩ := bind_eq_ok_iff.1 h
  rwa [refuseIf_eq_ok_iff.1 hfew'] at hfew

variable [Machine]

/-- Registering users gives **each of them** a vector and leaves everything else as it was. -/
theorem registerUsers_of_done [Scalar α] {m : Model α n} {ks : List Key}
    (hf : (m.registerUsers ks).fault = none) :
    ∃ c s, (m.registerUsers ks).state = { m with
      theta := (drawn m.hyper.init m.theta ks m.source).1
      counters := c
      source := s } := by
  rw [registerUsers] at hf ⊢
  split at hf
  · next hcan =>
      rw [if_pos hcan]
      exact ⟨_, _, rfl⟩
  · cases hf

/-- Registering items gives **each of them** two vectors and two biases and leaves everything
else as it was. -/
theorem registerItems_of_done [Scalar α] {m : Model α n} {ks : List Key}
    (hf : (m.registerItems ks).fault = none) :
    ∃ c s s', (m.registerItems ks).state = { m with
      beta := (drawn m.hyper.init m.beta ks m.source).1
      gamma := (drawn m.hyper.init m.gamma ks s).1
      betaBias := zeroBiases m.betaBias ks
      gammaBias := zeroBiases m.gammaBias ks
      counters := c
      source := s' } := by
  rw [registerItems] at hf ⊢
  split at hf
  · next hcan =>
      rw [if_pos hcan]
      exact ⟨_, _, _, rfl⟩
  · cases hf

end Model

namespace Recommender

/-- The model of a configuration has no parameters but the global bias, and a source with the
seed of the configuration. -/
theorem newModel_eq_ok [Numeral α] {c : Config α} {m : Model α n}
    (h : newModel c = .ok ⟨n, m⟩) :
    ∃ (hyper : Hyper α) (globalBias : α) (source : Source),
      m = Model.empty hyper globalBias source ∧ c.settings.Describes n hyper globalBias ∧
        hyper.init = c.init ∧
        (do Source.ofSeed (← (c.settings .seed).count)) = .ok source := by
  obtain ⟨seed, hseed, h⟩ := bind_eq_ok_iff.1 h
  obtain ⟨source, hsource, h⟩ := bind_eq_ok_iff.1 h
  obtain ⟨hyper, globalBias, hm, hs, hinit⟩ := Model.ofSettings_eq_ok h
  exact ⟨hyper, globalBias, source, eq_of_heq (Sigma.mk.inj hm).2, hs, hinit _ rfl,
    bind_eq_ok_iff.2 ⟨seed, hseed, hsource⟩⟩

variable [Machine]

/-- A fit that goes through is a **run** that goes through, from a model that is registered from
nothing. -/
theorem fitTables_of_done [Numeral α] [One ρ] [Operand ρ α] {r : Recommender α} {t : Training ρ}
    (hf : (r.fitTables t).fault = none) :
    ∃ (n : ℕ) (m : Model α n) (rule : StopRule α) (most : ℕ), newModel r.config = .ok ⟨n, m⟩ ∧
      schedule r.config = .ok (rule, most) ∧ (registered t m).fault = none ∧
      (Run.loop t rule most (Run.start (registered t m).state)).fault = none ∧
      (r.fitTables t).state.fitted
        = some ⟨n, (Run.loop t rule most (Run.start (registered t m).state)).state.model,
            (Run.loop t rule most (Run.start (registered t m).state)).state.progress.history⟩ := by
  rw [fitTables] at hf ⊢
  cases hm : newModel r.config with
  | error f =>
      simp only [hm] at hf
      cases hf
  | ok p =>
      obtain ⟨n, m⟩ := p
      simp only [hm, train] at hf ⊢
      cases hr : (registered t m).fault with
      | some f =>
          simp only [hr] at hf
          cases hf
      | none =>
          cases hs : schedule r.config with
          | error f =>
              simp only [hr, hs] at hf
              cases hf
          | ok q =>
              obtain ⟨rule, most⟩ := q
              cases hl : (Run.loop t rule most (Run.start (registered t m).state)).fault with
              | some f =>
                  simp only [hr, hs, hl] at hf
                  cases hf
              | none =>
                  refine ⟨n, m, rule, most, rfl, rfl, hr, hl, ?_⟩
                  simp only [hl]
                  rfl

/-- A fit goes through if its model can be built and registered, its schedule can be read, and
**its run goes through**. -/
theorem fitTables_done [Numeral α] [One ρ] [Operand ρ α] {r : Recommender α} {t : Training ρ}
    {m : Model α n} {rule : StopRule α} {most : ℕ} (hm : newModel r.config = .ok ⟨n, m⟩)
    (hs : schedule r.config = .ok (rule, most)) (hreg : (registered t m).fault = none)
    (hl : (Run.loop t rule most (Run.start (registered t m).state)).fault = none) :
    (r.fitTables t).fault = none := by
  rw [fitTables]
  simp only [hm, train, hreg, hs, hl]
  rfl

/-- A model that is registered from nothing **covers its tables**, and has recorded the items of
each user. -/
theorem registered_of_done [Numeral α] {t : Training ρ} {hyper : Hyper α} {globalBias : α}
    {source : Source} (hf : (registered t (Model.empty hyper globalBias source : Model α n)).fault
      = none) :
    let m := (registered t (Model.empty hyper globalBias source : Model α n)).state
    m.hyper = hyper ∧ m.Covers t ∧ ∀ u ∈ t.userItems, m.histories.get? u = t.userItems.get? u := by
  rw [registered] at hf ⊢
  obtain ⟨hf₁, hf₂⟩ := Outcome.bind_done_iff.1 hf
  rw [Outcome.bind_of_done hf₁]
  obtain ⟨c, s, hs⟩ := Model.registerUsers_of_done hf₁
  obtain ⟨c', s', s'', hs'⟩ := Model.registerItems_of_done hf₂
  have hempty : ∀ {ν : Type} (ks : List Key) (k : Key),
      (k ∈ (Table.empty : Table Key ν) ∨ k ∈ ks) ↔ k ∈ ks := fun ks k =>
    or_iff_right (Table.not_mem_empty k)
  rw [hs']
  simp only [Model.registerHistories, hs]
  refine ⟨rfl, ⟨fun k => ?_, fun k => ?_, fun k => ?_, fun k => ?_, fun k => ?_⟩, fun u hu => ?_⟩
  · exact (Table.mem_register _ _ _ _ k).trans (hempty _ k)
  · exact (Table.mem_register _ _ _ _ k).trans (hempty _ k)
  · exact (Table.mem_register _ _ _ _ k).trans (hempty _ k)
  · exact (Table.mem_register _ _ _ _ k).trans (hempty _ k)
  · exact (Table.mem_register _ _ _ _ k).trans (hempty _ k)
  · exact Table.get?_foldl_insert _ t.userItems hu

end Recommender

end CoEmbed
