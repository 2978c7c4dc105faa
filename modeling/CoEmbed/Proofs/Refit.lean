import CoEmbed.Proofs.Assessment
import CoEmbed.Proofs.Floating.Ordered
import CoEmbed.Proofs.Stopping

/-!
# Fitting Again

A recommender may be fitted any number of times, and an attempt may fail at any point. What it
serves is the outcome of the last attempt that went through, and nothing of any other.

* `Attempt`, `Recommender.attempt`, `Recommender.after` — one attempt at a fit, and several, one
  after the other.
* `Recommender.attempt_eq` — all that an attempt writes.
* `Indexed` — rows of vectors that stand in the order of a list of keys.
* `failed_attempt_keeps_model` — what is served after an attempt.
* `Recommender.fitted_after`, `Recommender.iterations_after` — what is served and what is noted
  after several attempts.
* `Config.sweeps_of_accepted` — an accepted configuration allows a sweep.
* `bookkeeping_of_attempts` — when the number of sweeps is that of the losses.

## Bookkeeping convention

The number of sweeps is noted while a run is under way, the losses when it has gone through. A run
that fails after some sweeps has noted those, and its losses are lost.
-/

namespace CoEmbed

variable {ρ α : Type} {n : ℕ}

/-! ### Rows -/

/-- Rows of vectors that stand **in the order of a list of keys**, with the places that lead from a
key back to its row. -/
structure Indexed (W : Factors α n) (keys : List Key) (places : Table Key ℕ)
    (rows : List (Vec α n)) : Prop where
  length : rows.length = keys.length
  row : ∀ (k : ℕ) key, keys[k]? = some key → ∃ v, W.get? key = some v ∧ rows[k]? = some v
  place : ∀ key (k : ℕ), places.get? key = some k ↔ keys[k]? = some key

/-- The vectors of a table are indexed by **its own keys**. -/
theorem indexed_keys (W : Factors α n) :
    Indexed W W.keys (Table.ofList W.keys.zipIdx) (W.keys.filterMap W.get?) where
  length := by rw [W.filterMap_get?_keys, Table.values, Table.keys, List.length_map, List.length_map]
  row k key hkey := by
    rw [Table.keys, List.getElem?_map, Option.map_eq_some_iff] at hkey
    obtain ⟨e, he, rfl⟩ := hkey
    refine ⟨e.2, Table.get?_of_mem_entries (List.mem_of_getElem? he), ?_⟩
    rw [W.filterMap_get?_keys, Table.values, List.getElem?_map, he, Option.map_some]
  place key k := by
    have hnodup : (W.keys.zipIdx.map Prod.fst).Nodup := by
      rw [List.zipIdx_map_fst]
      exact W.nodup_keys
    rw [← List.mk_mem_zipIdx_iff_getElem?]
    constructor
    · intro h
      rw [← Table.entries_ofList hnodup]
      exact Table.mem_entries_of_get? h
    · intro h
      rw [← Table.entries_ofList hnodup] at h
      exact Table.get?_of_mem_entries h

/-! ### Runs -/

section

variable [Numeral α] [One ρ] [Operand ρ α]

/-- A run that goes through **keeps the keys** of a model whose tables of items are aligned. -/
theorem Run.frame_loop [Machine] {t : Training ρ} {rule : StopRule α} {left : ℕ} {r : Run α n}
    (h : r.model.Aligned) (hf : (loop t rule left r).fault = none) :
    r.model.Frame (loop t rule left r).state.model := by
  refine loop_invariant (fun q => r.model.Frame q.model) (fun q hq hdone => ?_)
    (Model.Frame.refl r.model) hf
  obtain ⟨-, ⟨source, hmodel⟩, -⟩ := step_model_of_done hdone
  rw [hmodel]
  have hkeeps := Model.keeps_iterate (h.of_frame hq) t
  exact (hq.trans hkeeps.frame).trans (Model.Frame.withSource _ source)

namespace Recommender

omit [One ρ] in
/-- Registration from nothing gives the users and the items **the order of the tables**. -/
theorem keys_registered [Machine] {t : Training ρ} {hyper : Hyper α} {globalBias : α}
    {source : Source}
    (hf : (registered t (Model.empty hyper globalBias source : Model α n)).fault = none) :
    let m := (registered t (Model.empty hyper globalBias source : Model α n)).state
    m.theta.keys = t.userItems.keys ∧ m.beta.keys = t.itemUsers.keys ∧ m.Aligned := by
  have hconsistent := consistent_registered
    (Model.consistent_empty (n := n) hyper globalBias source) t
  rw [registered] at hf ⊢
  obtain ⟨hf₁, hf₂⟩ := Outcome.bind_done_iff.1 hf
  rw [Outcome.bind_of_done hf₁]
  obtain ⟨c, s, hs⟩ := Model.registerUsers_of_done hf₁
  obtain ⟨c', s', s'', hs'⟩ := Model.registerItems_of_done hf₂
  refine ⟨?_, ?_, ?_⟩
  · rw [hs']
    simp only [Model.registerHistories, hs]
    exact Table.keys_register_of_new _ t.userItems.nodup_keys (fun k _ => Table.not_mem_empty k) _
  · rw [hs']
    simp only [Model.registerHistories, hs]
    exact Table.keys_register_of_new _ t.itemUsers.nodup_keys (fun k _ => Table.not_mem_empty k) _
  · have haligned := hconsistent.aligned
    rw [registered, Outcome.bind_of_done hf₁] at haligned
    exact haligned

end Recommender

end

/-! ### Attempts -/

/-- An **attempt** to fit a recommender: to a log, or to tables of interactions. -/
inductive Attempt (ρ α : Type) where
  | log (f : Frame α) (s : Selection α)
  | tables (t : Training ρ)

namespace Recommender

section

variable [Numeral α] [One ρ] [Operand ρ α]

/-- What an **attempt** leaves of a recommender, and its fault if it has one. -/
def attempt [Machine] (r : Recommender α) : Attempt ρ α → Outcome (Recommender α)
  | .log f s => r.fit f s
  | .tables t => r.fitTables t

/-- The recommender **after some attempts**, those that fail included. -/
def after [Machine] (r : Recommender α) (attempts : List (Attempt ρ α)) : Recommender α :=
  attempts.foldl (fun r a => (r.attempt a).state) r

theorem after_concat [Machine] (r : Recommender α) (attempts : List (Attempt ρ α))
    (a : Attempt ρ α) : r.after (attempts ++ [a]) = ((r.after attempts).attempt a).state :=
  List.foldl_concat _ r a attempts

end

end Recommender

/-- What is **noted** of a number of iterations: nothing if there are none. -/
def noted (completed : ℕ) : Option ℕ := if completed = 0 then none else some completed

theorem getD_noted (completed before : ℕ) :
    (noted completed).getD before = if completed = 0 then before else completed := by
  rw [noted]
  split <;> rfl

namespace Attempt

variable [Numeral α] [One ρ] [Operand ρ α]

omit [One ρ] [Operand ρ α] in
/-- The **users and the items** that an attempt is about. -/
def keys [Machine] (c : Config α) : Attempt ρ α → Except Fault (List Key × List Key)
  | .log f s => do
    let t ← Recommender.trainingOf f s (c.settings .shift)
    return (t.userItems.keys, t.itemUsers.keys)
  | .tables t => .ok (t.userItems.keys, t.itemUsers.keys)

/-- The number of iterations that an attempt **completes**, whether it goes through or not. -/
def completed [Machine] (c : Config α) : Attempt ρ α → ℕ
  | .log f s => match Recommender.trainingOf f s (c.settings .shift) with
    | .error _ => 0
    | .ok t => ((Recommender.ofConfig c).trail t).length
  | .tables t => ((Recommender.ofConfig c).trail t).length

/-- The **outcome** of an attempt that goes through. -/
def fitted [Machine] (c : Config α) (a : Attempt ρ α) : Option (Fitted α) :=
  ((Recommender.ofConfig c).attempt a).state.fitted

end Attempt

namespace Recommender

variable [Numeral α] [One ρ] [Operand ρ α]

/-- A fit goes through exactly if it **has an outcome**. Whether it does, what the outcome is and
how many iterations it completes depends on the configuration alone. -/
theorem fitTables_eq [Machine] (r : Recommender α) (t : Training ρ) :
    let o := (ofConfig r.config).fitTables t
    (o.state.fitted.isSome = true ↔ o.fault = none) ∧ ∃ counters, r.fitTables t
      = ⟨⟨r.config, o.state.fitted.or r.fitted, counters,
        (noted (r.trail t).length).getD r.iterations⟩, o.fault⟩ := by
  suffices h : let o := (ofConfig r.config).fitTables t
      (o.state.fitted.isSome = true ↔ o.fault = none) ∧ ∃ counters iterations, r.fitTables t
        = ⟨⟨r.config, o.state.fitted.or r.fitted, counters, iterations⟩, o.fault⟩ by
    obtain ⟨hiff, counters, iterations, heq⟩ := h
    have hiterations := iterations_fitTables r t
    rw [heq] at hiterations
    refine ⟨hiff, counters, heq.trans ?_⟩
    rw [getD_noted, ← hiterations]
  dsimp only [fitTables, ofConfig]
  cases hm : newModel r.config with
  | error e => exact ⟨by simp [Outcome.failed], r.counters, r.iterations, rfl⟩
  | ok p =>
      obtain ⟨n, m⟩ := p
      dsimp only [train]
      cases hreg : (registered t m).fault with
      | some e => exact ⟨by simp [Outcome.failed, noting], _, _, rfl⟩
      | none =>
          cases hs : schedule r.config with
          | error e => exact ⟨by simp [Outcome.failed, noting], _, _, rfl⟩
          | ok q =>
              obtain ⟨rule, most⟩ := q
              dsimp only
              cases hl : (Run.loop t rule most (Run.start (registered t m).state)).fault with
              | some e => exact ⟨by simp [Outcome.failed, noting], _, _, rfl⟩
              | none => exact ⟨by simp [Outcome.done], _, _, rfl⟩

/-- A fit that goes through has **an average for each iteration** that it completes, and serves the
users and the items of its tables. -/
theorem fitted_of_fitTables [Machine] {r : Recommender α} {t : Training ρ}
    (hf : (r.fitTables t).fault = none) :
    ∃ f, (r.fitTables t).state.fitted = some f ∧ f.users = t.userItems.keys ∧
      f.items = t.itemUsers.keys ∧ f.history.length = (r.trail t).length := by
  obtain ⟨n, m, rule, most, hm, hs, hreg, hloop, hfitted⟩ := fitTables_of_done hf
  obtain ⟨hyper, globalBias, source, rfl, -⟩ := newModel_eq_ok hm
  obtain ⟨htheta, hbeta, haligned⟩ := keys_registered hreg
  have hframe := Run.frame_loop (r := Run.start _) haligned hloop
  refine ⟨_, hfitted, hframe.theta.trans htheta, hframe.beta.trans hbeta, ?_⟩
  dsimp only
  rw [Run.history_loop, trail_eq hm hs hreg, Run.trail_eq_followed, List.length_map,
    List.length_map, List.length_append, List.length_map]
  exact Nat.zero_add _

/-- **All that an attempt can write**: its counters, the number of the iterations that it completes
if there are any, and its outcome if it goes through. What these are depends on the configuration
alone, and so does the fault. -/
theorem attempt_eq [Machine] (r : Recommender α) (a : Attempt ρ α) :
    ∃ counters, r.attempt a = ⟨⟨r.config, (a.fitted r.config).or r.fitted, counters,
      (noted (a.completed r.config)).getD r.iterations⟩, ((ofConfig r.config).attempt a).fault⟩ := by
  cases a with
  | tables t => exact (fitTables_eq r t).2
  | log f s =>
      simp only [Attempt.fitted, Attempt.completed, attempt, fit, ofConfig]
      cases trainingOf f s (r.config.settings .shift) with
      | error e => exact ⟨r.counters, rfl⟩
      | ok t => exact (fitTables_eq r t).2

/-- An attempt goes through exactly if it **has an outcome**. -/
theorem isSome_fitted [Machine] (c : Config α) (a : Attempt ρ α) :
    (a.fitted c).isSome = true ↔ ((ofConfig c).attempt a).fault = none := by
  cases a with
  | tables t => exact (fitTables_eq (ofConfig c) t).1
  | log f s =>
      simp only [Attempt.fitted, attempt, fit, ofConfig]
      cases trainingOf f s (c.settings .shift) with
      | error e => simp [Outcome.failed]
      | ok t => exact (fitTables_eq (ofConfig c) t).1

/-- The outcome of an attempt serves **the users and the items that the attempt is about**, and has
an average for each iteration. -/
theorem fitted_eq_some [Machine] {c : Config α} {a : Attempt ρ α} {f : Fitted α}
    (h : a.fitted c = some f) :
    a.keys c = .ok (f.users, f.items) ∧ f.history.length = a.completed c := by
  have hf := (isSome_fitted c a).1 (by rw [h]; rfl)
  cases a with
  | tables t =>
      obtain ⟨f', hf', husers, hitems, hlength⟩ := fitted_of_fitTables hf
      obtain rfl : f' = f := Option.some.inj (hf'.symm.trans h)
      exact ⟨by rw [husers, hitems]; rfl, hlength⟩
  | log l s =>
      simp only [Attempt.fitted, Attempt.keys, Attempt.completed, attempt, fit, ofConfig] at h hf ⊢
      cases ht : trainingOf l s (c.settings .shift) with
      | error e =>
          rw [ht] at hf
          cases hf
      | ok t =>
          rw [ht] at h hf
          obtain ⟨f', hf', husers, hitems, hlength⟩ := fitted_of_fitTables hf
          obtain rfl : f' = f := Option.some.inj (hf'.symm.trans h)
          exact ⟨by rw [husers, hitems]; rfl, hlength⟩

/-- Attempts, one after the other: the **last one that goes through** is what is served. -/
theorem fitted_after [Machine] (r : Recommender α) (attempts : List (Attempt ρ α)) :
    (r.after attempts).config = r.config ∧ (r.after attempts).fitted
      = (attempts.reverse.findSome? (Attempt.fitted r.config)).or r.fitted := by
  induction attempts using List.reverseRecOn with
  | nil => exact ⟨rfl, rfl⟩
  | append_singleton attempts a ih =>
      obtain ⟨hconfig, hfitted⟩ := ih
      obtain ⟨counters, heq⟩ := attempt_eq (r.after attempts) a
      rw [after_concat, heq, List.reverse_concat, List.findSome?_cons]
      refine ⟨hconfig, ?_⟩
      rw [hconfig, hfitted]
      cases a.fitted r.config <;> rfl

/-- The number of sweeps is that of **the last attempt that completes an iteration**, whether it
goes through or not. -/
theorem iterations_after [Machine] (r : Recommender α) (attempts : List (Attempt ρ α)) :
    (r.after attempts).iterations
      = (attempts.reverse.findSome? fun a => noted (a.completed r.config)).getD r.iterations := by
  induction attempts using List.reverseRecOn with
  | nil => rfl
  | append_singleton attempts a ih =>
      obtain ⟨counters, heq⟩ := attempt_eq (r.after attempts) a
      rw [after_concat, heq, List.reverse_concat, List.findSome?_cons]
      dsimp only
      rw [(fitted_after r attempts).1, ih]
      cases noted (a.completed r.config) <;> rfl

end Recommender

/-! ### What is served -/

section

variable [Numeral α] [One ρ] [Operand ρ α]

/-- **A failed attempt keeps the model**: whatever the recommender and whatever the fault, what has
been fitted before is served as before, to every user and for every history. After an attempt that
goes through, the rows of vectors are those of the users and of the items that the attempt is about,
in the order of their lists, and the places lead from a key back to its row. -/
theorem failed_attempt_keeps_model [Machine] (r : Recommender α) (a : Attempt ρ α) :
    (∀ e, (r.attempt a).fault = some e →
      (r.attempt a).state.config = r.config ∧ (r.attempt a).state.fitted = r.fitted ∧
        (r.attempt a).state.losses = r.losses ∧ ∀ user history count,
          (r.attempt a).state.recommend user history count = r.recommend user history count) ∧
    ((r.attempt a).fault = none → ∃ f, (r.attempt a).state.fitted = some f ∧
      a.keys r.config = .ok (f.users, f.items) ∧
      Indexed f.model.theta f.users f.userPlaces f.userFactors ∧
      Indexed f.model.beta f.items f.itemPlaces f.itemFactors) := by
  obtain ⟨counters, heq⟩ := r.attempt_eq a
  rw [heq]
  refine ⟨fun e he => ?_, fun hdone => ?_⟩
  · have hnone : a.fitted r.config = none := by
      rw [← Option.not_isSome_iff_eq_none, Recommender.isSome_fitted]
      exact fun hdone => nomatch hdone.symm.trans he
    rw [hnone]
    exact ⟨rfl, rfl, rfl, fun _ _ _ => rfl⟩
  · obtain ⟨f, hf⟩ := Option.isSome_iff_exists.1 ((Recommender.isSome_fitted r.config a).2 hdone)
    rw [hf]
    exact ⟨f, rfl, (Recommender.fitted_eq_some hf).1, indexed_keys _, indexed_keys _⟩

end

/-- Settings without a ridge for the users, and **two sweeps** whatever the losses are. -/
def Settings.unridged : Settings Float :=
  (((Settings.standard.set .factor (.integer 1)).set .ridgeTheta (.integer 0)).set .iterations
    (.integer 2)).set .checkConvergence (.flag false)

/-- Tables of one user and the one item that the user has. -/
def Training.paired : Training Float :=
  ⟨Table.ofList [(.text "u", [.text "a"])], Table.ofList [(.text "a", [.text "u"])], Table.empty, []⟩

/-- Tables of a user **without items** and an item without users. -/
def Training.unpaired : Training Float :=
  ⟨Table.ofList [(.text "v", [])], Table.ofList [(.text "b", [])], Table.empty, []⟩

/-- A first fit that goes through, and a second one that fails **in the second of its two
sweeps**. -/
theorem exists_unridged :
    ∃ c : Config Float, Config.ofSettings Settings.unridged = .ok c ∧
      (c.settings .iterations).count = .ok 2 ∧
      let first : Attempt Float Float := .tables .paired
      let second : Attempt Float Float := .tables .unpaired
      let o := (Recommender.ofConfig c).attempt first
      let o' := o.state.attempt second
      o.fault = none ∧ o'.fault = some (.system (.notPositiveDefinite 1)) ∧
        o'.state.iterations = 1 ∧ o'.state.losses.length = 2 ∧
        first.completed c = 2 ∧ second.completed c = 1 := by
  obtain ⟨c, hc, h⟩ := exists_ok_of_any (x := Config.ofSettings Settings.unridged)
    (p := fun c =>
      let first : Attempt Float Float := .tables .paired
      let second : Attempt Float Float := .tables .unpaired
      let o := (Recommender.ofConfig c).attempt first
      let o' := o.state.attempt second
      decide ((c.settings .iterations).count = .ok 2 ∧
        o.fault = none ∧ o'.fault = some (.system (.notPositiveDefinite 1)) ∧
        o'.state.iterations = 1 ∧ o'.state.losses.length = 2 ∧
        first.completed c = 2 ∧ second.completed c = 1)) (by decide +kernel)
  exact ⟨c, hc, of_decide_eq_true h⟩

/-- A fit that goes through and serves a user, and a second one that fails. -/
theorem failed_attempt_keeps_model_unridged :
    ∃ c : Config Float, Config.ofSettings Settings.unridged = .ok c ∧
      let first : Attempt Float Float := .tables .paired
      let second : Attempt Float Float := .tables .unpaired
      let r := ((Recommender.ofConfig c).attempt first).state
      (∃ f, r.fitted = some f ∧ f.users = [.text "u"] ∧
        Indexed f.model.theta f.users f.userPlaces f.userFactors) ∧
      (r.attempt second).fault = some (.system (.notPositiveDefinite 1)) ∧
      (r.attempt second).state.fitted = r.fitted ∧ ∀ user history count,
        (r.attempt second).state.recommend user history count = r.recommend user history count := by
  obtain ⟨c, hc, -, hfirst, hsecond, -⟩ := exists_unridged
  obtain ⟨f, hf, hkeys, hindexed, -⟩ := (failed_attempt_keeps_model _ _).2 hfirst
  obtain ⟨-, hfitted, -, hserved⟩ := (failed_attempt_keeps_model _ _).1 _ hsecond
  exact ⟨c, hc, ⟨f, hf, (congrArg Prod.fst (Except.ok.inj hkeys)).symm, hindexed⟩, hsecond, hfitted,
    hserved⟩

/-- The losses are **those of the run** that is served. -/
theorem Recommender.losses_eq [Numeral α] (r : Recommender α) :
    r.losses = (r.fitted.map Fitted.history).getD [] := by
  rw [losses]
  cases r.fitted <;> rfl

/-- A configuration **allows a sweep**. -/
def Config.Sweeps [Numeral α] (c : Config α) : Prop :=
  ∀ k, (c.settings .iterations).count = .ok k → 1 ≤ k

/-- Every accepted configuration allows a sweep. -/
theorem Config.sweeps_of_accepted [Numeral α] [Numeral.Ordered α] {s : Settings α} {c : Config α}
    (h : s.Accepted c) : c.Sweeps := by
  intro k hk
  rw [h.settings_of_ne (by decide)] at hk
  exact Setting.one_le_count h.iterations hk

section

variable [Numeral α] [One ρ] [Operand ρ α]

/-- A fit that goes through **completes an iteration**, if its configuration allows a sweep. -/
theorem Recommender.length_trail_ne_zero [Machine] {r : Recommender α} {t : Training ρ}
    (hc : r.config.Sweeps) (hf : (r.fitTables t).fault = none) : (r.trail t).length ≠ 0 := by
  obtain ⟨n, m, rule, most, -, hs, -⟩ := fitTables_of_done hf
  obtain ⟨-, -, k, hk, rfl⟩ := schedule_eq_ok hs
  obtain ⟨most, hmost⟩ : ∃ most, k.toNat = most + 1 := by
    have hone := hc k hk
    exact ⟨k.toNat - 1, by omega⟩
  rw [hmost] at hs
  obtain ⟨P, hP⟩ := exists_trail_zero hs hf
  obtain ⟨hlt, -⟩ := List.getElem?_eq_some_iff.1 hP
  omega

/-- So does an attempt. -/
theorem Recommender.completed_ne_zero [Machine] {c : Config α} {a : Attempt ρ α} {f : Fitted α}
    (hc : c.Sweeps) (h : a.fitted c = some f) : a.completed c ≠ 0 := by
  have hf := (isSome_fitted c a).1 (by rw [h]; rfl)
  cases a with
  | tables t => exact length_trail_ne_zero (r := ofConfig c) hc hf
  | log l s =>
      simp only [Attempt.completed, attempt, fit, ofConfig] at hf ⊢
      cases ht : trainingOf l s (c.settings .shift) with
      | error e =>
          rw [ht] at hf
          cases hf
      | ok t =>
          rw [ht] at hf
          exact length_trail_ne_zero (r := ofConfig c) hc hf

/-- The books of a configuration that allows a sweep, **accepted or not**. -/
theorem Recommender.books_after [Machine] {c : Config α} (hc : c.Sweeps)
    (attempts : List (Attempt ρ α)) (a : Attempt ρ α) :
    let r := (Recommender.ofConfig c).after attempts
    let r' := (Recommender.ofConfig c).after (attempts ++ [a])
    r.iterations = (attempts.reverse.findSome? fun a => noted (a.completed c)).getD 0 ∧
      r.losses = ((attempts.reverse.findSome? (Attempt.fitted c)).map Fitted.history).getD [] ∧
      ((r.attempt a).fault = none →
        r'.iterations = a.completed c ∧ r'.losses.length = a.completed c) ∧
      ∀ e, (r.attempt a).fault = some e → r.iterations = r.losses.length →
        (r'.iterations = r'.losses.length ↔
          a.completed c = 0 ∨ a.completed c = r.losses.length) := by
  intro r r'
  obtain ⟨hconfig, hfitted⟩ := (Recommender.ofConfig c).fitted_after attempts
  have hserved : r.fitted = attempts.reverse.findSome? (Attempt.fitted c) :=
    hfitted.trans (Option.or_none)
  obtain ⟨counters, heq⟩ := r.attempt_eq a
  have hnext : r' = ⟨c, (a.fitted c).or r.fitted, counters,
      (noted (a.completed c)).getD r.iterations⟩ := by
    refine (Recommender.after_concat _ attempts a).trans ?_
    rw [heq, hconfig]
    rfl
  have hfault : (r.attempt a).fault = ((Recommender.ofConfig c).attempt a).fault := by
    rw [heq, hconfig]
    rfl
  refine ⟨(Recommender.ofConfig c).iterations_after attempts, ?_, fun hdone => ?_, fun e he hr => ?_⟩
  · rw [r.losses_eq, hserved]
  · rw [hfault, ← Recommender.isSome_fitted] at hdone
    obtain ⟨f, hf⟩ := Option.isSome_iff_exists.1 hdone
    rw [r'.losses_eq, hnext, hf, getD_noted, if_neg (Recommender.completed_ne_zero hc hf)]
    exact ⟨rfl, (Recommender.fitted_eq_some hf).2⟩
  · have hnone : a.fitted c = none := by
      rw [← Option.not_isSome_iff_eq_none, Recommender.isSome_fitted, ← hfault, he]
      exact nofun
    rw [r'.losses_eq, hnext, hnone, getD_noted]
    change (if _ then _ else _) = ((r.fitted.map Fitted.history).getD []).length ↔ _
    rw [← r.losses_eq]
    split
    · next h => exact iff_of_true hr (.inl h)
    · next h => exact ⟨.inr, fun h' => h'.resolve_left h⟩

/-- **Two runs in the books.** After any attempts, the number of sweeps is that of the last attempt
that completed an iteration, and the losses are those of the last attempt that went through. So
there are as many losses as sweeps after every attempt that goes through. After one that fails,
there are if there were before and it has completed no iteration, or as many as there are losses;
and only then. -/
theorem bookkeeping_of_attempts [Machine] [Numeral.Ordered α] {s : Settings α} {c : Config α}
    (hc : Config.ofSettings s = .ok c) (attempts : List (Attempt ρ α)) (a : Attempt ρ α) :
    let r := (Recommender.ofConfig c).after attempts
    let r' := (Recommender.ofConfig c).after (attempts ++ [a])
    r.iterations = (attempts.reverse.findSome? fun a => noted (a.completed c)).getD 0 ∧
      r.losses = ((attempts.reverse.findSome? (Attempt.fitted c)).map Fitted.history).getD [] ∧
      ((r.attempt a).fault = none →
        r'.iterations = a.completed c ∧ r'.losses.length = a.completed c) ∧
      ∀ e, (r.attempt a).fault = some e → r.iterations = r.losses.length →
        (r'.iterations = r'.losses.length ↔
          a.completed c = 0 ∨ a.completed c = r.losses.length) :=
  Recommender.books_after (Config.sweeps_of_accepted (Config.ofSettings_eq_ok_iff.1 hc)) attempts a

end

/-- A second fit that fails leaves **one sweep** in the books, and two losses of the first fit. -/
theorem not_forall_iterations_eq_length_losses :
    ¬ ∀ (s : Settings Float) (c : Config Float) (attempts : List (Attempt Float Float)),
      Config.ofSettings s = .ok c →
        ((Recommender.ofConfig c).after attempts).iterations
          = ((Recommender.ofConfig c).after attempts).losses.length := by
  intro hall
  obtain ⟨c, hc, -, -, -, hiterations, hlosses, -⟩ := exists_unridged
  have heq := hall Settings.unridged c [.tables .paired, .tables .unpaired] hc
  cases hiterations.symm.trans (heq.trans hlosses)

/-- The first fit completes two sweeps; the second fails after one, and **one is not two**. -/
theorem bookkeeping_of_attempts_unridged :
    ∃ c : Config Float, Config.ofSettings Settings.unridged = .ok c ∧ c.Sweeps ∧
      let first : Attempt Float Float := .tables .paired
      let second : Attempt Float Float := .tables .unpaired
      let r := (Recommender.ofConfig c).after [first]
      let r' := (Recommender.ofConfig c).after [first, second]
      r.iterations = 2 ∧ r.losses.length = 2 ∧ second.completed c = 1 ∧
        r'.iterations ≠ r'.losses.length := by
  obtain ⟨c, hc, -, hfirst, hsecond, -, -, htwo, hone⟩ := exists_unridged
  obtain ⟨-, -, hdone, -⟩ := bookkeeping_of_attempts hc [] (.tables .paired)
  obtain ⟨hiterations, hlosses⟩ := hdone hfirst
  rw [htwo] at hiterations hlosses
  obtain ⟨-, -, -, hfailed⟩ :=
    bookkeeping_of_attempts hc [.tables .paired] (.tables .unpaired)
  have hiff := hfailed _ hsecond (hiterations.trans hlosses.symm)
  refine ⟨c, hc, Config.sweeps_of_accepted (Config.ofSettings_eq_ok_iff.1 hc), hiterations, hlosses,
    hone, fun heq => ?_⟩
  rcases hiff.1 heq with hzero | hsame
  · cases hone.symm.trans hzero
  · cases hone.symm.trans (hsame.trans hlosses)

end CoEmbed
