import CoEmbed.Proofs.Exact.Finite
import CoEmbed.Proofs.Run

/-!
# Verdicts

A run is followed sweep by sweep, and all that decides whether it stops are the total losses of its
last two sweeps: the later must not be the greater, and what has been gained must be less than the
rate says, unless there was nothing left to gain.

* `SweepReport` — what is reported of a sweep.
* `Progress.hear`, `Progress.sweep`, `Progress.follow` — losses, a sweep, and sweeps one after the
  other.
* `Progress.hear_accepted`, `Progress.follow_accepted` — refused losses change nothing.
* `StopRule.Settles`, `StopRule.decisions` — what decides, and what is decided.
* `Progress.Stands`, `Progress.sweep_eq_ok`, `Progress.follow_eq_ok` — what one sweep does, and what
  all of them do.
* `verdicts_of_totals` — the verdicts and the averages of a run.

## Loss convention

A loss may be anything, but one that is finite is not below zero. Those that are not finite are
refused, and the run goes on.
-/

namespace CoEmbed

open Scalar (finite)

open Scalar.Exact (value)

variable {α : Type}

/-- What is **reported of a sweep**: its losses, and the number of instances they are averaged
over. -/
structure SweepReport (α : Type) where
  losses : List α
  instances : Setting α

/-! ### Following a run -/

section

variable [Numeral α]

/-- The losses of a sweep **without those that are refused**. -/
def SweepReport.accepted (s : SweepReport α) : SweepReport α :=
  { s with losses := s.losses.filter finite }

/-- A multiple of all losses of a sweep. -/
def SweepReport.scale (c : α) (s : SweepReport α) : SweepReport α :=
  { s with losses := s.losses.map (c * ·) }

namespace Progress

/-- Losses are reported one after the other, and those that are refused **are passed over**. -/
def hear (p : Progress α) (losses : List α) : Progress α :=
  losses.foldl (fun p x => (p.report x).toOption.getD p) p

/-- A **sweep** from its beginning to its verdict. -/
def sweep (rule : StopRule α) (p : Progress α) (s : SweepReport α) :
    Except Fault (Progress α × Bool) := do
  let p := p.next.hear s.losses
  return p.record rule (← p.averageOver s.instances)

/-- **Sweeps one after the other**, each with its verdict. -/
def follow (rule : StopRule α) : Progress α → List (SweepReport α) →
    Except Fault (Progress α × List Bool)
  | p, [] => .ok (p, [])
  | p, s :: sweeps => do
    let (p, stop) ← p.sweep rule s
    let (p, stops) ← p.follow rule sweeps
    return (p, stop :: stops)

variable {rule : StopRule α} {p : Progress α}

/-! ### Refused losses -/

/-- A loss that is not finite **is refused**. -/
theorem report_of_exceptional {x : α} {e : Exceptional} (h : Scalar.exceptional? x = some e) :
    p.report x = .error (.loss (.sweep p.iteration e)) := by
  rw [report, h]

/-- A finite loss **is added**. -/
theorem report_of_finite {x : α} (h : finite x = true) :
    p.report x = .ok { p with current := p.current + x } := by
  rw [report, Option.isNone_iff_eq_none.1 h]

/-- Only a finite loss is heard. -/
theorem hear_cons (x : α) (losses : List α) :
    p.hear (x :: losses)
      = (if finite x = true then { p with current := p.current + x } else p).hear losses := by
  refine congrArg (hear · losses) ?_
  dsimp only
  cases hx : Scalar.exceptional? x with
  | none =>
      have hfinite : finite x = true := Option.isNone_iff_eq_none.2 hx
      rw [report_of_finite hfinite, if_pos hfinite]
      rfl
  | some e =>
      have hrefused : ¬ finite x = true := by
        rw [finite, hx]
        exact Bool.false_ne_true
      rw [report_of_exceptional hx, if_neg hrefused]
      rfl

/-- Refused losses **change nothing**. -/
theorem hear_accepted (losses : List α) : p.hear (losses.filter finite) = p.hear losses := by
  induction losses generalizing p with
  | nil => rfl
  | cons x losses ih =>
      rw [hear_cons, ← ih]
      by_cases hx : finite x = true
      · rw [List.filter_cons_of_pos hx, hear_cons]
      · rw [List.filter_cons_of_neg hx, if_neg hx]

/-- A run is followed **as without them**. -/
theorem follow_accepted (sweeps : List (SweepReport α)) :
    p.follow rule (sweeps.map SweepReport.accepted) = p.follow rule sweeps := by
  induction sweeps generalizing p with
  | nil => rfl
  | cons s sweeps ih =>
      have hsweep : p.sweep rule s.accepted = p.sweep rule s := by
        rw [sweep, sweep]
        dsimp only [SweepReport.accepted]
        rw [hear_accepted]
      rw [List.map_cons, follow, follow, hsweep]
      refine congrArg _ (funext fun q => ?_)
      dsimp only
      rw [ih]


end Progress

end

/-! ### Verdicts on totals -/

/-- The only member of an option is **its value**. -/
theorem exists_mem_some {κ : Type} {p : κ → Prop} {y : κ} : (∃ x ∈ some y, p x) ↔ p y :=
  ⟨fun ⟨_, hmem, h⟩ => Option.some.inj hmem ▸ h, fun h => ⟨y, rfl, h⟩⟩

namespace StopRule

/-- What **decides** after two sweeps of some total losses: the later is not the greater, and less
has been gained than a rate says, unless there was nothing to gain. -/
def Settles (rate previous current : ℝ) : Prop :=
  current ≤ previous ∧ (previous = 0 ∨ previous - current < rate * previous)

/-- It is all the same if everything is lost **a number of times**. -/
theorem settles_mul {c : ℝ} (hc : 0 < c) (rate previous current : ℝ) :
    Settles rate (c * previous) (c * current) ↔ Settles rate previous current := by
  have hgain : c * previous - c * current < rate * (c * previous)
      ↔ previous - current < rate * previous := by
    rw [← mul_sub, mul_left_comm, mul_lt_mul_iff_right₀ hc]
  rw [Settles, Settles, mul_le_mul_iff_right₀ hc, hgain, mul_eq_zero, or_iff_right hc.ne']

open Classical in
/-- The **decisions** on sweeps of some total losses, after a sweep of another one if there was
one. -/
noncomputable def decisions (check : Bool) (rate : ℝ) : Option ℝ → List ℝ → List Bool
  | _, [] => []
  | last, x :: totals =>
    (check && decide (∃ previous ∈ last, Settles rate previous x)) ::
      decisions check rate (some x) totals

variable {check : Bool} {rate : ℝ} {last : Option ℝ} {totals : List ℝ}

open Classical in
/-- The first of some sweeps is decided by its total loss and **that of the sweep before**. -/
theorem decisions_cons (check : Bool) (rate : ℝ) (last : Option ℝ) (x : ℝ) (totals : List ℝ) :
    ∃ stop, decisions check rate last (x :: totals) = stop :: decisions check rate (some x) totals ∧
      (stop = true ↔ check = true ∧ ∃ previous ∈ last, Settles rate previous x) :=
  ⟨_, rfl, by rw [Bool.and_eq_true, decide_eq_true_iff]⟩

theorem length_decisions : (decisions check rate last totals).length = totals.length := by
  induction totals generalizing last with
  | nil => rfl
  | cons x totals ih => exact congrArg Nat.succ ih

/-- A sweep after the first is decided by its total loss and **that of the one before**. -/
theorem getElem?_decisions_succ {t : ℕ} {x y : ℝ} (hx : totals[t]? = some x)
    (hy : totals[t + 1]? = some y) :
    ∃ stop, (decisions check rate last totals)[t + 1]? = some stop ∧
      (stop = true ↔ check = true ∧ Settles rate x y) := by
  induction totals generalizing last t with
  | nil => cases hx
  | cons z totals ih =>
      cases t with
      | succ t => exact ih hx hy
      | zero =>
          obtain rfl := Option.some.inj hx
          cases totals with
          | nil => cases hy
          | cons w totals =>
              obtain rfl := Option.some.inj hy
              obtain ⟨stop, hstop, hiff⟩ := decisions_cons check rate (some z) w totals
              refine ⟨stop, congrArg (·[0]?) hstop, hiff.trans (and_congr_right fun _ => ?_)⟩
              rw [exists_mem_some]

/-- The first sweep of all is **not the last**. -/
theorem getElem?_decisions_zero : (decisions check rate none totals)[0]? ≠ some true := by
  cases totals with
  | nil => exact nofun
  | cons x totals =>
      obtain ⟨stop, hstop, hiff⟩ := decisions_cons check rate none x totals
      rw [hstop]
      intro h
      obtain ⟨-, _, hmem, -⟩ := hiff.1 (Option.some.inj h)
      cases hmem

/-- What is decided does not change if everything is lost **a number of times**. -/
theorem decisions_mul (last : Option ℝ) {c : ℝ} (hc : 0 < c) :
    decisions check rate (last.map (c * ·)) (totals.map (c * ·))
      = decisions check rate last totals := by
  induction totals generalizing last with
  | nil => rfl
  | cons x totals ih =>
      have hfirst : (∃ previous ∈ last.map (c * ·), Settles rate previous (c * x))
          ↔ ∃ previous ∈ last, Settles rate previous x := by
        cases last with
        | none => exact iff_of_false (fun ⟨_, h, _⟩ => by cases h) fun ⟨_, h, _⟩ => by cases h
        | some y => rw [Option.map_some, exists_mem_some, exists_mem_some, settles_mul hc]
      obtain ⟨stop, hstop, hiff⟩ := decisions_cons check rate last x totals
      obtain ⟨stop', hstop', hiff'⟩ :=
        decisions_cons check rate (last.map (c * ·)) (c * x) (totals.map (c * ·))
      have hsame : stop' = stop := by rw [Bool.eq_iff_iff, hiff, hiff', hfirst]
      rw [List.map_cons, hstop, hstop', hsame, ← ih]
      rfl

end StopRule

/-! ### What a run does -/

section

variable [Numeral α] [Scalar.Exact α]

namespace SweepReport

/-- The **total loss** of a sweep. -/
noncomputable def total (s : SweepReport α) : ℝ := ((s.losses.filter finite).map value).sum

/-- The **number of instances**. -/
noncomputable def size (s : SweepReport α) : ℝ :=
  match s.instances.number with
  | .ok n => value n
  | .error _ => 0

/-- Losses that are finite are **not below zero**, and there are instances. -/
structure Sound (s : SweepReport α) : Prop where
  nonneg : ∀ x ∈ s.losses, finite x = true → 0 ≤ value x
  instances : ∃ n, s.instances.number = .ok n ∧ finite n = true ∧ 0 < value n

variable {s : SweepReport α}

theorem Sound.total_nonneg (h : s.Sound) : 0 ≤ s.total := by
  refine List.sum_nonneg fun r hr => ?_
  obtain ⟨x, hx, rfl⟩ := List.mem_map.1 hr
  exact h.nonneg x (List.mem_of_mem_filter hx) (List.mem_filter.1 hx).2

/-- A multiple of all losses is **a multiple of their total**. -/
theorem total_scale {c : α} (hfinite : finite c = true) (hc : 0 < value c) :
    (s.scale c).total = value c * s.total := by
  have hsame : (s.losses.map (c * ·)).filter finite = (s.losses.filter finite).map (c * ·) := by
    rw [List.filter_map]
    refine congrArg _ (List.filter_congr fun x _ => Scalar.Exact.finite_mul hfinite hc.ne')
  rw [total, total, scale, hsame, List.map_map, ← List.sum_map_mul_left]
  refine congrArg _ (List.map_congr_left fun x hx => ?_)
  exact Scalar.Exact.mul hfinite (List.mem_filter.1 hx).2

theorem Sound.scale (h : s.Sound) {c : α} (hfinite : finite c = true) (hc : 0 < value c) :
    (s.scale c).Sound := by
  refine ⟨fun y hy hyfinite => ?_, h.instances⟩
  obtain ⟨x, hx, rfl⟩ := List.mem_map.1 hy
  rw [Scalar.Exact.finite_mul hfinite hc.ne'] at hyfinite
  rw [Scalar.Exact.mul hfinite hyfinite]
  exact mul_nonneg hc.le (h.nonneg x hx hyfinite)

end SweepReport

namespace Progress

variable {rule : StopRule α} {p : Progress α} {s : SweepReport α}

/-- Losses that are heard **add up**, and change nothing else. -/
theorem hear_eq (hp : finite p.current = true) (losses : List α) :
    ∃ c, p.hear losses = { p with current := c } ∧ finite c = true ∧
      value c = value p.current + ((losses.filter finite).map value).sum := by
  induction losses generalizing p with
  | nil => exact ⟨p.current, rfl, hp, (add_zero _).symm⟩
  | cons x losses ih =>
      rw [hear_cons]
      by_cases hx : finite x = true
      · obtain ⟨hsum, hvalue⟩ := Scalar.Exact.add hp hx
        obtain ⟨c, hc, hfinite, htotal⟩ := ih (p := { p with current := p.current + x }) hsum
        rw [if_pos hx, List.filter_cons_of_pos hx, List.map_cons, List.sum_cons]
        exact ⟨c, hc, hfinite, by rw [htotal, hvalue, add_assoc]⟩
      · rw [if_neg hx, List.filter_cons_of_neg hx]
        exact ih hp

/-- An average over instances is **the sum by their number**. -/
theorem averageOver_eq_ok (hp : finite p.current = true) {instances : Setting α} {n : α}
    (hn : instances.number = .ok n) (hfinite : finite n = true) (hpos : 0 < value n) :
    ∃ a, p.averageOver instances = .ok a ∧ finite a = true ∧
      value a = value p.current / value n := by
  obtain ⟨hzero, hzero'⟩ := Scalar.Exact.zero (α := α)
  have hle : ¬ Scalar.le n 0 = true := by
    rw [Scalar.le, Bool.or_eq_true, Scalar.Exact.lt_iff hfinite hzero,
      Scalar.Exact.eq_iff hfinite hzero, hzero', not_or]
    exact ⟨not_lt.2 hpos.le, hpos.ne'⟩
  obtain ⟨hquotient, hvalue⟩ := Scalar.Exact.div hp hfinite hpos.ne'
  refine ⟨_, ?_, hquotient, hvalue⟩
  rw [averageOver, hn]
  change (if Scalar.le n 0 = true then _ else _) = _
  rw [if_neg hle, Setting.operand_of_number hn hfinite]
  rfl

/-- A later sweep is the last one **just where its total loss and that of the sweep before decide
so**. -/
theorem settled_iff {previous : α} (hprevious : p.previous = some previous)
    (hiteration : 1 < p.iteration) (hrate : finite rule.rate = true)
    (hfinite : finite previous = true) (hnonneg : 0 ≤ value previous)
    (hcurrent : finite p.current = true) : p.settled rule = true ↔ rule.check = true ∧
      StopRule.Settles (value rule.rate) (value previous) (value p.current) := by
  have hlook : (!rule.check || decide (p.iteration ≤ 1) || !finite previous) = !rule.check := by
    rw [hfinite, decide_eq_false (not_le.2 hiteration), Bool.or_false, Bool.not_true, Bool.or_false]
  obtain ⟨hzero, hzero'⟩ := Scalar.Exact.zero (α := α)
  rw [settled, hprevious]
  dsimp only
  rw [hlook]
  cases rule.check with
  | false => exact iff_of_false Bool.false_ne_true fun h => Bool.false_ne_true h.1
  | true =>
      rw [Bool.not_true, if_neg Bool.false_ne_true, and_iff_right rfl, StopRule.Settles]
      by_cases hgrown : Scalar.lt previous p.current = true
      · rw [if_pos hgrown]
        exact iff_of_false Bool.false_ne_true fun h =>
          not_lt.2 h.1 ((Scalar.Exact.lt_iff hfinite hcurrent).1 hgrown)
      · rw [if_neg hgrown,
          and_iff_right (not_lt.1 (mt (Scalar.Exact.lt_iff hfinite hcurrent).2 hgrown))]
        by_cases hnothing : Scalar.eq previous 0 = true
        · rw [if_pos hnothing]
          rw [Scalar.Exact.eq_iff hfinite hzero, hzero'] at hnothing
          exact iff_of_true rfl (.inl hnothing)
        · have hne : value previous ≠ 0 := by
            rwa [Scalar.Exact.eq_iff hfinite hzero, hzero'] at hnothing
          obtain ⟨hgain, hvalue⟩ := Scalar.Exact.sub hfinite hcurrent
          obtain ⟨hshare, hvalue'⟩ := Scalar.Exact.div hgain hfinite hne
          rw [if_neg hnothing, Scalar.Exact.lt_iff hshare hrate, hvalue', hvalue,
            div_lt_iff₀ (lt_of_le_of_ne hnonneg hne.symm), or_iff_right hne]

/-- Where a run **stands** after a sweep of some total loss, or before there was any. -/
structure Stands (p : Progress α) (last : Option ℝ) : Prop where
  fresh : last = none → p.iteration = 0 ∧ p.previous = none
  swept : ∀ x ∈ last, 0 < p.iteration ∧ finite p.current = true ∧ value p.current = x ∧ 0 ≤ x

theorem stands_start : (start : Progress α).Stands none := ⟨fun _ => ⟨rfl, rfl⟩, nofun⟩

/-- What **one sweep** does: it records an average, and is judged by its total loss and that of the
sweep before. -/
theorem sweep_eq_ok (hrate : finite rule.rate = true) {last : Option ℝ} (h : p.Stands last)
    (hs : s.Sound) : ∃ p' stop a, p.sweep rule s = .ok (p', stop) ∧ p'.Stands (some s.total) ∧
      p'.history = p.history ++ [a] ∧ finite a = true ∧ value a = s.total / s.size ∧
      (stop = true ↔ rule.check = true ∧
        ∃ previous ∈ last, StopRule.Settles (value rule.rate) previous s.total) := by
  obtain ⟨hzero, hzero'⟩ := Scalar.Exact.zero (α := α)
  obtain ⟨c, hheard, hfinite, hvalue⟩ := hear_eq (p := p.next) hzero s.losses
  have htotal : value c = s.total := by
    rw [hvalue]
    exact (congrArg (· + _) hzero').trans (zero_add _)
  obtain ⟨n, hn, hnfinite, hnpos⟩ := hs.instances
  obtain ⟨a, ha, hafinite, haverage⟩ :=
    averageOver_eq_ok (p := { p.next with current := c }) hfinite hn hnfinite hnpos
  have hsize : s.size = value n := by rw [SweepReport.size, hn]
  have hsweep : p.sweep rule s = .ok (record { p.next with current := c } rule a) := by
    rw [sweep]
    dsimp only
    rw [hheard, ha]
    rfl
  refine ⟨_, _, a, hsweep, ⟨nofun, ?_⟩, rfl, hafinite, by rw [haverage, htotal, hsize], ?_⟩
  · rintro x hx
    obtain rfl := Option.some.inj hx
    exact ⟨Nat.succ_pos _, hfinite, htotal, hs.total_nonneg⟩
  · cases last with
    | none =>
        obtain ⟨hiteration, hprevious⟩ := h.fresh rfl
        have hnext : p.next.previous = none := by rw [next, if_pos hiteration, hprevious]
        have hnot : settled { p.next with current := c } rule = false := by rw [settled, hnext]
        rw [hnot]
        exact iff_of_false Bool.false_ne_true fun ⟨_, _, hmem, _⟩ => by cases hmem
    | some x =>
        obtain ⟨hiteration, hcurrent, hx, hnonneg⟩ := h.swept x rfl
        have hnext : p.next.previous = some p.current := by rw [next, if_neg hiteration.ne']
        rw [exists_mem_some, ← hx, ← htotal]
        exact settled_iff (p := { p.next with current := c }) hnext (Nat.succ_lt_succ hiteration)
          hrate hcurrent (hx ▸ hnonneg) hfinite

/-- What **all sweeps** do. -/
theorem follow_eq_ok (rule : StopRule α) (hrate : finite rule.rate = true) {last : Option ℝ}
    (h : p.Stands last) {sweeps : List (SweepReport α)} (hs : ∀ s ∈ sweeps, s.Sound) :
    ∃ p' averages, p.follow rule sweeps = .ok (p',
        StopRule.decisions rule.check (value rule.rate) last (sweeps.map SweepReport.total)) ∧
      p'.history = p.history ++ averages ∧ (∀ a ∈ averages, finite a = true) ∧
      averages.map value = sweeps.map fun s => s.total / s.size := by
  induction sweeps generalizing p last with
  | nil => exact ⟨p, [], rfl, (List.append_nil _).symm, nofun, rfl⟩
  | cons s sweeps ih =>
      obtain ⟨hsound, hs⟩ := List.forall_mem_cons.1 hs
      obtain ⟨p', stop, a, hsweep, hstands, hhistory, hafinite, ha, hstop⟩ :=
        sweep_eq_ok hrate h hsound
      obtain ⟨p'', averages, hfollow, hhistory', hfinite, haverages⟩ := ih hstands hs
      obtain ⟨stop', hdecided, hstop'⟩ := StopRule.decisions_cons rule.check (value rule.rate) last
        s.total (sweeps.map SweepReport.total)
      have hsame : stop' = stop := by rw [Bool.eq_iff_iff, hstop, hstop']
      refine ⟨p'', a :: averages, ?_, ?_, List.forall_mem_cons.2 ⟨hafinite, hfinite⟩, ?_⟩
      · rw [follow, hsweep, List.map_cons, hdecided, hsame]
        exact bind_eq_ok_iff.2 ⟨_, rfl, bind_eq_ok_iff.2 ⟨_, hfollow, rfl⟩⟩
      · rw [hhistory', hhistory, List.append_assoc, List.singleton_append]
      · rw [List.map_cons, List.map_cons, ha, haverages]

end Progress

/-- A rate that is a finite number and not below zero **makes a rule**. -/
theorem StopRule.ofSettings_eq_ok {check rate : Setting α} {x : α} (h : rate.number = .ok x)
    (hx : finite x = true) (hnonneg : 0 ≤ value x) :
    StopRule.ofSettings check rate = .ok ⟨check.holds, x⟩ := by
  obtain ⟨hzero, hzero'⟩ := Scalar.Exact.zero (α := α)
  have hbelow : rate.below 0 = .ok false := by
    have hlt : ¬ Scalar.lt x 0 = true := by
      rw [Scalar.Exact.lt_iff hx hzero, hzero']
      exact not_lt.2 hnonneg
    rw [Setting.below, h]
    exact congrArg Except.ok (Bool.eq_false_iff.2 hlt)
  exact bind_eq_ok_iff.2 ⟨_, hbelow, bind_eq_ok_iff.2 ⟨(), refuseIf_eq_ok_iff.2 rfl,
    bind_eq_ok_iff.2 ⟨x, h, rfl⟩⟩⟩

end

/-- **Verdicts and averages of a run.** Under a rate that is not below zero every run of sweeps goes
through. The first sweep is not the last one; a later one is, exactly if the losses are looked at,
its total loss is not above that of the sweep before, and either that was zero or the loss has
fallen by less than the rate says. The averages are the total losses by the numbers of instances. A
loss that is not finite is refused and changes nothing, and a positive multiple of all losses
changes no verdict. -/
theorem verdicts_of_totals [Numeral α] [Scalar.Exact α] {check rate : Setting α} {x : α}
    (h : rate.number = .ok x) (hx : finite x = true) (hnonneg : 0 ≤ value x)
    {sweeps : List (SweepReport α)} (hs : ∀ s ∈ sweeps, s.Sound) :
    ∃ rule p verdicts, StopRule.ofSettings check rate = .ok rule ∧
      Progress.start.follow rule sweeps = .ok (p, verdicts) ∧
      verdicts.length = sweeps.length ∧ verdicts[0]? ≠ some true ∧
      (∀ (t : ℕ) (s s' : SweepReport α), sweeps[t]? = some s → sweeps[t + 1]? = some s' →
        ∃ stop, verdicts[t + 1]? = some stop ∧ (stop = true ↔ check.holds = true ∧
          s'.total ≤ s.total ∧ (s.total = 0 ∨ s.total - s'.total < value x * s.total))) ∧
      (∀ a ∈ p.history, finite a = true) ∧
      p.history.map value = sweeps.map (fun s => s.total / s.size) ∧
      Progress.start.follow rule (sweeps.map SweepReport.accepted) = .ok (p, verdicts) ∧
      (∀ (n : ℕ) (r : Run α n) (y : α) (e : Exceptional), Scalar.exceptional? y = some e →
        r.report y = .failed r (.loss (.sweep r.progress.iteration e))) ∧
      ∀ c, finite c = true → 0 < value c → ∃ p',
        Progress.start.follow rule (sweeps.map (SweepReport.scale c)) = .ok (p', verdicts) := by
  obtain ⟨p, averages, hfollow, hhistory, hfinite, haverages⟩ :=
    Progress.follow_eq_ok ⟨check.holds, x⟩ hx Progress.stands_start hs
  obtain rfl : p.history = averages := hhistory.trans (List.nil_append _)
  refine ⟨_, p, _, StopRule.ofSettings_eq_ok h hx hnonneg, hfollow, ?_,
    StopRule.getElem?_decisions_zero, fun t s s' hbefore hafter => ?_, hfinite, haverages, ?_,
    fun n r y e he => ?_, fun c hc hpos => ?_⟩
  · rw [StopRule.length_decisions, List.length_map]
  · exact StopRule.getElem?_decisions_succ (by rw [List.getElem?_map, hbefore]; rfl)
      (by rw [List.getElem?_map, hafter]; rfl)
  · rw [Progress.follow_accepted, hfollow]
  · rw [Run.report, Progress.report_of_exceptional he]
  · have hscaled : ∀ s ∈ sweeps.map (SweepReport.scale c), s.Sound := by
      intro s' hs'
      obtain ⟨s, hmem, rfl⟩ := List.mem_map.1 hs'
      exact (hs s hmem).scale hc hpos
    obtain ⟨p', -, hfollow', -⟩ :=
      Progress.follow_eq_ok ⟨check.holds, x⟩ hx Progress.stands_start hscaled
    refine ⟨p', hfollow'.trans ?_⟩
    have htotals : (sweeps.map (SweepReport.scale c)).map SweepReport.total
        = (sweeps.map SweepReport.total).map (value c * ·) := by
      rw [List.map_map, List.map_map]
      exact List.map_congr_left fun s _ => SweepReport.total_scale hc hpos
    rw [htotals]
    exact congrArg (fun verdicts => Except.ok (p', verdicts))
      (StopRule.decisions_mul none hpos)

/-- Losses that fall by half and then hardly at all: the run stops **after the third sweep**, and
the loss that is not a number does not matter. -/
theorem verdicts_of_totals_hardly :
    letI := Spelling.silent
    let loss (r : ℝ) : Extended := .real r
    let sweeps : List (SweepReport Extended) := [⟨[loss 6, loss 4], .integer 1⟩,
      ⟨[loss 5, .notANumber], .integer 2⟩, ⟨[loss 4.99], .flag true⟩]
    ∃ rule p, StopRule.ofSettings (.flag true) (.real (loss 0.01)) = .ok rule ∧
      Progress.start.follow rule sweeps = .ok (p, [false, false, true]) ∧
      p.history.map value = [10, 2.5, 4.99] := by
  let _ := Spelling.silent
  intro loss sweeps
  have hone : sweeps[0].total = 10 := by
    change ([6, 4] : List ℝ).sum = 10
    norm_num
  have htwo : sweeps[1].total = 5 := by
    change ([5] : List ℝ).sum = 5
    norm_num
  have hthree : sweeps[2].total = 4.99 := by
    change ([4.99] : List ℝ).sum = 4.99
    norm_num
  have hsize : sweeps[0].size = 1 := Nat.cast_one
  have hsize' : sweeps[1].size = 2 := Nat.cast_ofNat
  have hsize'' : sweeps[2].size = 1 := rfl
  have hreal : ∀ {n : ℝ} {s : SweepReport Extended}, s.instances.number = .ok (.real n) → 0 < n →
      (∀ x ∈ s.losses, x = .notANumber ∨ ∃ r, x = .real r ∧ 0 ≤ r) → s.Sound := by
    intro n s hn hpos hlosses
    refine ⟨fun x hmem hfinite => ?_, .real n, hn, rfl, hpos⟩
    rcases hlosses x hmem with rfl | ⟨r, rfl, hr⟩
    · cases hfinite
    · exact hr
  have hsound : ∀ s ∈ sweeps, s.Sound := by
    refine List.forall_mem_cons.2 ⟨hreal (n := (1 : ℕ)) rfl (by norm_num) ?_,
      List.forall_mem_cons.2 ⟨hreal (n := (2 : ℕ)) rfl (by norm_num) ?_,
        List.forall_mem_singleton.2 (hreal (n := 1) rfl one_pos ?_)⟩⟩
    · exact List.forall_mem_cons.2 ⟨.inr ⟨6, rfl, by norm_num⟩,
        List.forall_mem_singleton.2 (.inr ⟨4, rfl, by norm_num⟩)⟩
    · exact List.forall_mem_cons.2 ⟨.inr ⟨5, rfl, by norm_num⟩,
        List.forall_mem_singleton.2 (.inl rfl)⟩
    · exact List.forall_mem_singleton.2 (.inr ⟨4.99, rfl, by norm_num⟩)
  obtain ⟨rule, p, verdicts, hrule, hfollow, hlength, hfirst, hlater, -, hhistory, -⟩ :=
    @verdicts_of_totals _ _ _ (.flag true) (.real (loss 0.01)) _ rfl rfl
      (by change (0 : ℝ) ≤ 0.01; norm_num) _ hsound
  obtain ⟨second, hsecond, hsettles⟩ := hlater 0 sweeps[0] sweeps[1] rfl rfl
  obtain ⟨third, hthird, hsettles'⟩ := hlater 1 sweeps[1] sweeps[2] rfl rfl
  have hrate : value (loss 0.01) = 0.01 := rfl
  rw [hone, htwo, hrate] at hsettles
  rw [htwo, hthree, hrate] at hsettles'
  obtain rfl : second = false := by
    rw [← Bool.not_eq_true, hsettles]
    norm_num
  obtain rfl : third = true := hsettles'.2 ⟨rfl, by norm_num, .inr (by norm_num)⟩
  obtain ⟨first, second, third, rfl⟩ := List.length_eq_three.1 hlength
  obtain rfl := Option.some.inj hsecond
  obtain rfl := Option.some.inj hthird
  obtain rfl : first = false := by simpa using hfirst
  refine ⟨rule, p, hrule, hfollow, hhistory.trans ?_⟩
  change [sweeps[0].total / sweeps[0].size, sweeps[1].total / sweeps[1].size,
    sweeps[2].total / sweeps[2].size] = _
  rw [hone, htwo, hthree, hsize, hsize', hsize'']
  norm_num

end CoEmbed
