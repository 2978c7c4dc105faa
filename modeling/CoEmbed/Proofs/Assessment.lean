import CoEmbed.Proofs.Exact.Order
import CoEmbed.Proofs.Operation
import CoEmbed.Proofs.Path
import CoEmbed.Proofs.Validation

/-!
# Iterations are Compared Like with Like

Which held-out pairs have a loss depends on keys and histories, which no sweep and no validation
changes, and on whether items are sampled, but not on which they are. So all iterations of a fit
are judged by the same pairs, or all of them by the loss on the training data.

* `Training.scorable` — the held-out pairs that a validation can score.
* `Model.scored` — the pairs that a validation does score, each with its loss.
* `Model.Comparable` — what a validation looks at, besides parameters and source, is that of the
  tables.
* `Run.each_validatePair`, `Run.validate_of_done` — what a validation adds up and counts.
* `Assessment`, `Run.assess` — what an iteration is judged by.
* `Run.compares_assess` — it is the same for every iteration that is completed.
* `iterations_compare_like_with_like` — so it is for all iterations of a fit.

## Source convention

A validation passes the source on from pair to pair. What is drawn decides how high a loss is, and
never whether there is one.
-/

namespace CoEmbed

variable {ρ α : Type} {n : ℕ}

/-! ### Comparable models -/

instance (t : Training ρ) (metric : Metric) (p : Key × Key) : Decidable (t.Scorable metric p) :=
  decidable_of_iff (p.1 ∈ t.userItems ∧ p.2 ∈ t.itemUsers ∧ (metric = .auc →
      ∃ j ∈ t.itemUsers.keys, j ≠ p.2 ∧ j ∉ (t.userItems.get? p.1).getD []))
    ⟨fun ⟨hu, hi, ho⟩ => ⟨hu, hi, ho⟩, fun ⟨hu, hi, ho⟩ => ⟨hu, hi, ho⟩⟩

/-- The held-out pairs that a validation **can score**, a repeated one as often as it is held
out. -/
def Training.scorable (t : Training ρ) (metric : Metric) : List (Key × Key) :=
  t.heldOut.filter fun p => decide (t.Scorable metric p)

namespace Model

/-- What a validation looks at of a model, besides its parameters and its source, is **that of the
tables**; a model that ranks samples at least one item, if there is one. -/
structure Comparable (t : Training ρ) (metric : Metric) (m : Model α n) : Prop where
  covers : m.Covers t
  remembers : m.Remembers t
  aligned : m.Aligned
  measured : m.hyper.metric = metric
  negatives : metric = .auc → 1 ≤ m.hyper.negatives

namespace Comparable

variable {t : Training ρ} {metric : Metric} {m m' : Model α n}

theorem of_frame (h : m.Comparable t metric) (hframe : m.Frame m') : m'.Comparable t metric where
  covers := h.covers.of_frame hframe
  remembers := h.remembers.of_frame hframe
  aligned := h.aligned.of_frame hframe
  measured := by rw [hframe.hyper, h.measured]
  negatives := by
    rw [hframe.hyper]
    exact h.negatives

theorem withSource (h : m.Comparable t metric) (s : Source) :
    (m.withSource s).Comparable t metric := h.of_frame (Frame.withSource m s)

end Comparable

end Model

section

variable [Scalar α]

/-! ### Losses -/

/-- The pairs of a list that a model **does score**, each with its loss. -/
def Model.scored [Machine] (m : Model α n) : List (Key × Key) → List ((Key × Key) × α)
  | [] => []
  | p :: ps =>
    let v := m.validate p.1 p.2
    let rest := scored (m.withSource v.2) ps
    match v.1 with
    | .ok (some x) => (p, x) :: rest
    | .ok none | .error _ => rest

/-- The **average** of some losses over a number of instances, or their sum if there are none. -/
def averageOf (losses : List α) (instances : ℕ) : α :=
  if instances = 0 then Scalar.total losses else Scalar.total losses / Scalar.ofInt instances

theorem Progress.average_eq {p : Progress α} {losses : List α}
    (h : p.current = Scalar.total losses) (instances : ℕ) :
    p.average instances = averageOf losses instances := by
  rw [average, averageOf, h]
  exact if_congr Int.natCast_nonpos_iff rfl rfl

/-- A validation that is no fault finds a loss **exactly if the pair can be scored**. -/
theorem Model.Comparable.isSome_iff [Machine] {t : Training ρ} {metric : Metric} {m : Model α n}
    (h : m.Comparable t metric) {p : Key × Key} {o : Option α}
    (ho : (m.validate p.1 p.2).1 = .ok o) : o.isSome = true ↔ t.Scorable metric p := by
  obtain ⟨hcovers, hremembers, -, rfl, hnegatives⟩ := h
  constructor
  · intro hsome
    obtain ⟨x, rfl⟩ := Option.isSome_iff_exists.1 hsome
    by_contra hnot
    exact Model.validate_of_not_scorable hcovers hremembers hnot x ho
  · intro hscorable
    rw [Option.isSome_iff_ne_none]
    rintro rfl
    exact Model.validate_of_scorable hcovers hremembers hnegatives hscorable ho

/-! ### Validations -/

namespace Run

/-- Validating a **list of pairs** without a fault scores those that can be scored, adds up their
losses and counts them. -/
theorem each_validatePair [Machine] {t : Training ρ} {metric : Metric} {ps : List (Key × Key)}
    {s : Run α n × ℕ} (h : s.1.model.Comparable t metric)
    (hf : (Outcome.each validatePair s ps).fault = none) :
    (s.1.model.scored ps).map Prod.fst = ps.filter (fun p => decide (t.Scorable metric p)) ∧
      (∃ source, (Outcome.each validatePair s ps).state.1.model = s.1.model.withSource source) ∧
      (Outcome.each validatePair s ps).state.1.progress.current
        = ((s.1.model.scored ps).map Prod.snd).foldl (· + ·) s.1.progress.current ∧
      (Outcome.each validatePair s ps).state.2 = s.2 + (s.1.model.scored ps).length := by
  induction ps generalizing s with
  | nil => exact ⟨rfl, ⟨_, rfl⟩, rfl, rfl⟩
  | cons p ps ih =>
      obtain ⟨hp, hps⟩ := Outcome.bind_done_iff.1 hf
      have hnext := h.withSource (s.1.model.validate p.1 p.2).2
      rw [Outcome.each, Outcome.bind_of_done hp, List.filter_cons, Model.scored]
      rcases validatePair_of_done hp with ⟨x, hx, hstate⟩ | ⟨hx, hstate⟩
      · have hscorable : t.Scorable metric p := (h.isSome_iff hx).1 rfl
        rw [hstate] at hps ⊢
        obtain ⟨hpairs, hmodel, hcurrent, hcount⟩ := ih hnext hps
        simp only [hx, if_pos (decide_eq_true hscorable), List.map_cons, List.length_cons]
        exact ⟨congrArg _ hpairs, hmodel, hcurrent, hcount.trans (Nat.add_right_comm _ _ _)⟩
      · have hnot : ¬ t.Scorable metric p := fun hscorable =>
          absurd ((h.isSome_iff hx).2 hscorable) Bool.false_ne_true
        rw [hstate] at hps ⊢
        obtain ⟨hpairs, hmodel, hcurrent, hcount⟩ := ih hnext hps
        simp only [hx, if_neg (mt of_decide_eq_true hnot)]
        exact ⟨hpairs, hmodel, hcurrent, hcount⟩

variable [One ρ] [Operand ρ α]

/-- A **validation** that is no fault adds up and counts the losses of the pairs that can be
scored; if there is no such pair, the loss on the training data. -/
theorem validate_of_done [Machine] {t : Training ρ} {metric : Metric} {r : Run α n}
    (h : r.model.Comparable t metric) (hcurrent : r.progress.current = 0)
    (hf : (validate t r).fault = none) :
    (r.model.scored t.heldOut).map Prod.fst = t.scorable metric ∧
      (t.scorable metric ≠ [] →
        (validate t r).state.2 = (t.scorable metric).length ∧
        (validate t r).state.1.progress.current
          = Scalar.total ((r.model.scored t.heldOut).map Prod.snd)) ∧
      (t.scorable metric = [] →
        (validate t r).state.2 = t.size ∧ ∃ loss, r.model.loss t.samples = .ok loss ∧
          (validate t r).state.1.progress.current = Scalar.total [loss]) := by
  obtain ⟨heach, hrest⟩ := Outcome.bind_done_iff.1 hf
  obtain ⟨hpairs, ⟨source, hmodel⟩, htotal, hcount⟩ := each_validatePair (s := (r, 0)) h heach
  have hlength : (Outcome.each validatePair (r, 0) t.heldOut).state.2
      = (t.scorable metric).length := by
    rw [hcount, Nat.zero_add, ← List.length_map (f := Prod.fst), hpairs, Training.scorable]
  rw [validate, Outcome.bind_of_done heach]
  refine ⟨hpairs, fun hne => ?_, fun hnil => ?_⟩
  · have hnonzero : (Outcome.each validatePair (r, 0) t.heldOut).state.2 ≠ 0 := by
      rw [hlength]
      exact mt List.eq_nil_of_length_eq_zero hne
    rw [if_pos hnonzero]
    refine ⟨hlength, htotal.trans ?_⟩
    rw [Scalar.total, hcurrent]
  · have hzero : ¬ (Outcome.each validatePair (r, 0) t.heldOut).state.2 ≠ 0 := by
      rw [hlength, hnil]
      exact not_not.2 rfl
    have hscored : r.model.scored t.heldOut = [] := by
      rw [← List.map_eq_nil_iff (f := Prod.fst), hpairs]
      exact hnil
    rw [if_neg hzero] at hrest ⊢
    rw [hscored] at htotal
    cases hloss : (Outcome.each validatePair (r, 0) t.heldOut).state.1.model.loss t.samples with
    | error f =>
        simp only [hloss] at hrest
        cases hrest
    | ok loss =>
        simp only [hloss] at hrest ⊢
        rw [hmodel] at hloss
        refine ⟨trivial, loss, hloss, ?_⟩
        rw [report_of_done hrest]
        change (Outcome.each validatePair (r, 0) t.heldOut).state.1.progress.current + loss = _
        rw [htotal]
        change r.progress.current + loss = 0 + loss
        rw [hcurrent]

end Run

end

/-! ### Assessments -/

/-- What an iteration is **judged by**: the model that its sweeps have made, the number of instances
that its losses are taken over, and their average. -/
structure Assessment (α : Type) where
  factor : ℕ
  model : Model α factor
  observed : ℕ
  average : α

/-- What the model of an iteration has **learnt**. -/
def Assessment.parameters (a : Assessment α) : (n : ℕ) × Parameters α n :=
  ⟨a.factor, a.model.parameters⟩

section

variable [Scalar α] [Operand ρ α]

/-- An **iteration** keeps keys and histories. -/
theorem Model.keeps_iterate {m : Model α n} (h : m.Aligned) (t : Training ρ) :
    m.Keeps (m.iterate t).state :=
  Outcome.bind_invariant (P := fun m' => m.Keeps m') (keeps_updateUsers m t.userItems) fun hm' =>
    hm'.trans (keeps_updateItems (h.of_frame hm'.frame) t.itemUsers t.rows)

theorem Run.comparable_swept {t : Training ρ} {metric : Metric} {r : Run α n}
    (h : r.model.Comparable t metric) : (swept t r).model.Comparable t metric :=
  h.of_frame (Model.keeps_iterate h.aligned t).frame

variable [One ρ]

/-- The assessment of the **next iteration**. -/
def Run.assess [Machine] (t : Training ρ) (r : Run α n) : Assessment α :=
  ⟨n, (swept t r).model, (validate t (swept t r)).state.2, recorded t r⟩

/-- An iteration is judged by **what the tables say it is to be judged by**: by the held-out pairs
that can be scored, or by the loss on the training data if there is no such pair. -/
structure Assessment.Compares [Machine] (t : Training ρ) (metric : Metric)
    (a : Assessment α) : Prop where
  /-- The registered users and items are those of the tables. -/
  covers : a.model.Covers t
  /-- So are the histories of the users. -/
  remembers : a.model.Remembers t
  /-- Whatever is drawn, a validation that is no fault finds a loss for the pairs that can be scored
  and for no others. -/
  decides : ∀ (source : Source) (p : Key × Key) (o : Option α),
    ((a.model.withSource source).validate p.1 p.2).1 = .ok o →
      (o.isSome = true ↔ t.Scorable metric p)
  /-- The held-out pairs that do have a loss are those that can be scored. -/
  scored : (a.model.scored t.heldOut).map Prod.fst = t.scorable metric
  observed : a.observed
    = if t.scorable metric = [] then t.size else (t.scorable metric).length
  heldOut : t.scorable metric ≠ [] →
    a.average = averageOf ((a.model.scored t.heldOut).map Prod.snd) a.observed
  training : t.scorable metric = [] →
    ∃ loss, a.model.loss t.samples = .ok loss ∧ a.average = averageOf [loss] a.observed

namespace Run

variable {t : Training ρ} {metric : Metric} {rule : StopRule α} {r : Run α n}

/-- A completed iteration leaves the model **comparable**. -/
theorem comparable_step [Machine] (h : r.model.Comparable t metric)
    (hf : (step t rule r).fault = none) : (step t rule r).state.1.model.Comparable t metric := by
  obtain ⟨-, ⟨source, hmodel⟩, -⟩ := step_model_of_done hf
  rw [hmodel]
  exact (comparable_swept h).withSource source

/-- A completed iteration is judged by **what the tables say**. -/
theorem compares_assess [Machine] (h : r.model.Comparable t metric)
    (hf : (step t rule r).fault = none) : (assess t r).Compares t metric := by
  have hswept := comparable_swept h
  obtain ⟨hpairs, hheldOut, htraining⟩ :=
    validate_of_done hswept rfl (validate_done_of_step hf)
  refine ⟨hswept.covers, hswept.remembers, fun source p o ho =>
    (hswept.withSource source).isSome_iff ho, hpairs, ?_, fun hne => ?_, fun hnil => ?_⟩
  · split
    · next hnil => exact (htraining hnil).1
    · next hne => exact (hheldOut hne).1
  · exact Progress.average_eq (hheldOut hne).2 _
  · obtain ⟨-, loss, hloss, htotal⟩ := htraining hnil
    exact ⟨loss, hloss, Progress.average_eq htotal _⟩

end Run

end

/-! ### Fits -/

namespace Recommender

variable [Numeral α]

/-- Registration leaves a consistent model **consistent**. -/
theorem consistent_registered [Machine] [Operand ρ α] {h : Hyper α} {g : α} {m : Model α n}
    (hm : m.Consistent h g) (t : Training ρ) : (registered t m).state.Consistent h g := by
  have hcounted := hm.of_keeps (Model.Keeps.withCounters m .complete)
  refine Outcome.bind_invariant (P := fun m : Model α n => m.Consistent h g) ?_ fun h => ?_
  · exact Model.consistent_act hcounted (.registerHistories t.userItems : Operation ρ)
  · exact Model.consistent_act h (.registerItems t.itemUsers.keys : Operation ρ)

/-- The model of a configuration is **comparable** once it is registered. -/
theorem comparable_registered [Machine] [Numeral.Ordered α] [Operand ρ α] {c : Config α}
    {t : Training ρ} {m : Model α n} {metric : Metric}
    (hmetric : Metric.ofSetting (c.settings .metric) = .ok metric)
    (hm : newModel c = .ok ⟨n, m⟩) (hreg : (registered t m).fault = none) :
    (registered t m).state.Comparable t metric := by
  obtain ⟨seed, -, hsource⟩ := bind_eq_ok_iff.1 hm
  obtain ⟨source, -, hofSettings⟩ := bind_eq_ok_iff.1 hsource
  obtain ⟨hyper, globalBias, source, rfl, hdesc, -⟩ := newModel_eq_ok hm
  obtain ⟨hhyper, hcovers, hremembers⟩ := registered_of_done hreg
  have hconsistent := consistent_registered
    (Model.consistent_empty (n := n) hyper globalBias source) t
  have hmeasured : hyper.metric = metric := Except.ok.inj (hdesc.metric.symm.trans hmetric)
  exact {
    covers := hcovers
    remembers := hremembers
    aligned := hconsistent.aligned
    measured := by rw [hhyper, hmeasured]
    negatives := fun hauc => by
      rw [hhyper]
      rw [hauc] at hmetric
      exact Setting.one_le_whole (Model.below_negatives_of_ofSettings hofSettings hmetric)
        hdesc.negatives }

variable [One ρ] [Operand ρ α]

/-- The **assessments** of the iterations that a fit completes. -/
def assessments [Machine] (r : Recommender α) (t : Training ρ) : List (Assessment α) :=
  (r.along (fun _ q => Run.assess t q) t).take ((r.verdicts t).findIdx id + 1)

/-- The assessments of a fit are those of the iterations whose parameters are **in its trail**. -/
theorem trail_eq_assessments [Machine] (r : Recommender α) (t : Training ρ) :
    r.trail t = (r.assessments t).map Assessment.parameters := by
  rcases along_cases r t with ⟨hnil, htrail⟩ | ⟨n, m, rule, most, hm, hs, hreg⟩
  · rw [assessments, hnil, htrail]
    rfl
  · rw [assessments, along_take _ hm hs hreg, trail_eq hm hs hreg, Run.trail_eq_followed,
      List.map_map, List.map_map]
    refine List.map_congr_left fun q hq => ?_
    have hdone := Run.step_done_of_mem_path (List.mem_of_mem_take hq)
    obtain ⟨-, ⟨source, hmodel⟩, -⟩ := Run.step_model_of_done hdone
    change (⟨n, (Run.step t rule q).state.1.model.parameters⟩ : (n : ℕ) × Parameters α n) = _
    rw [hmodel]
    rfl

/-- A fit that goes through keeps **the averages of its assessments**. -/
theorem history_eq_assessments [Machine] {r : Recommender α} {t : Training ρ}
    (hf : (r.fitTables t).fault = none) :
    ∃ f, (r.fitTables t).state.fitted = some f ∧
      f.history = (r.assessments t).map Assessment.average := by
  obtain ⟨f, -, -, hfitted, -, hhistory, -⟩ := history_of_done hf
  obtain ⟨n, m, rule, most, hm, hs, hreg, -⟩ := fitTables_of_done hf
  refine ⟨f, hfitted, ?_⟩
  rw [hhistory, averages, assessments, along_take _ hm hs hreg, along_take _ hm hs hreg,
    List.map_map]
  rfl

end Recommender

/-- **Iterations are compared like with like**: every iteration that a fit completes, whether the
fit goes through or not, is judged by what the tables say, and what is kept of a fit that goes
through is what its iterations have been judged by. -/
theorem iterations_compare_like_with_like [Machine] [Numeral α] [Numeral.Ordered α] [One ρ]
    [Operand ρ α] (r : Recommender α) (t : Training ρ) {metric : Metric}
    (hmetric : Metric.ofSetting (r.config.settings .metric) = .ok metric) :
    (∀ a ∈ r.assessments t, a.Compares t metric) ∧
      r.trail t = (r.assessments t).map Assessment.parameters ∧
      ((r.fitTables t).fault = none → ∃ f, (r.fitTables t).state.fitted = some f ∧
        f.history = (r.assessments t).map Assessment.average) := by
  refine ⟨fun a ha => ?_, r.trail_eq_assessments t, Recommender.history_eq_assessments⟩
  rcases Recommender.along_cases r t with ⟨hnil, -⟩ | ⟨n, m, rule, most, hm, hs, hreg⟩
  · rw [Recommender.assessments, hnil] at ha
    cases ha
  · rw [Recommender.assessments, Recommender.along_take _ hm hs hreg, List.mem_map] at ha
    obtain ⟨q, hq, rfl⟩ := ha
    -- the invariant along the path: no iteration changes what a validation looks at
    obtain ⟨hcomparable, hdone⟩ := Run.forall_mem_path
      (P := fun q : Run α n => q.model.Comparable t metric) (fun _ h hf => Run.comparable_step h hf)
      (Recommender.comparable_registered hmetric hm hreg) q (List.mem_of_mem_take hq)
    exact Run.compares_assess hcomparable hdone

/-- A fit that ranks, and holds out a pair twice that can be scored, a user without a row, and one
who has had all items. -/
theorem iterations_compare_like_with_like_mutual :
    letI := Spelling.silent
    let r : Recommender ℝ := .ofConfig (Config.ones .auc 2)
    let t := { Training.mutual with
      heldOut := [(.text "u", .text "a"), (.text "w", .text "a"), (.text "v", .text "a"),
        (.text "u", .text "a")] }
    t.scorable .auc = [(.text "u", .text "a"), (.text "u", .text "a")] ∧ r.assessments t ≠ [] ∧
      (∀ a ∈ r.assessments t, a.Compares t .auc) ∧
      r.trail t = (r.assessments t).map Assessment.parameters ∧
      ∃ f, (r.fitTables t).state.fitted = some f ∧
        f.history = (r.assessments t).map Assessment.average := by
  let _ := Spelling.silent
  intro r t
  have hu : t.userItems.Distinct := by decide
  have hi : t.itemUsers.Distinct := by decide
  have hf : (r.fitTables t).fault = none :=
    fitTables_ones .auc 2 rfl hu hi Training.transposed_mutual Training.symmetric_mutual
  obtain ⟨hcompares, htrail, hhistory⟩ :=
    iterations_compare_like_with_like r t (ofSetting_ones .auc 2)
  obtain ⟨rule, hsched⟩ := schedule_ones .auc 2
  obtain ⟨P, hP⟩ := Recommender.exists_trail_zero hsched hf
  have hne : r.assessments t ≠ [] := by
    intro hnil
    rw [htrail, hnil] at hP
    cases hP
  exact ⟨by decide, hne, hcompares, htrail, hhistory hf⟩

end CoEmbed
