import CoEmbed.Proofs.Counting
import CoEmbed.Proofs.Harvest
import CoEmbed.Proofs.Refit

/-!
# The Census of a Fit

A sweep counts the keys that the tables list, and those among them that it passes over because they
are not registered. A fit to a log passes over none: whatever its tables mention has been registered
before the first sweep and stays so.

* `Model.Knows` — a model to which everything is known that the tables mention.
* `Model.Knows.tally_users`, `Model.Knows.tally_items` — what is met in the sweeps of such a model.
* `Model.shows_iterate` — what an iteration counts.
* `Run.counts_loop` — what a run counts.
* `Training.Harvested.knows` — the tables of a log mention nothing that is not registered.
* `fit_counts_every_pair` — what a fit to a log counts.

## Counting convention

A pair is counted under its user and once more under its item, in every sweep. The two are kept
apart; each has one counter for what is listed and one for what is known.
-/

namespace CoEmbed

variable {ρ α : Type} {n : ℕ}

/-- What is counted of a row, or of several, in which so many keys are listed that are **all
known**. -/
def listing (total trainable : Counted) (k : ℕ) : Counted → ℤ :=
  Pi.single total (k : ℤ) + Pi.single trainable (k : ℤ)

/-! ### Sweeps -/

namespace Model

/-- **Everything that the tables mention** is known to the model. -/
structure Knows (m : Model α n) (t : Training ρ) : Prop where
  users : ∀ u ∈ t.userItems, u ∈ m.theta
  items : ∀ i ∈ t.itemUsers, i ∈ m.beta
  listedItems : ∀ row ∈ t.userItems.entries, ∀ i ∈ row.2, i ∈ m.beta
  listedUsers : ∀ row ∈ t.itemUsers.entries, ∀ u ∈ row.2, u ∈ m.theta
  neighbors : ∀ row ∈ t.rows.entries, row.1 ∈ m.beta ∧ ∀ e ∈ row.2, e.1 ∈ m.beta ∧ e.1 ∈ m.gamma

/-- What is known to a model is known to every other with the same keys. -/
theorem Knows.of_frame {m m' : Model α n} {t : Training ρ} (h : m.Knows t) (hframe : m.Frame m') :
    m'.Knows t := by
  have htheta : ∀ k, k ∈ m'.theta ↔ k ∈ m.theta := fun k => by
    rw [Table.mem_iff, hframe.theta, ← Table.mem_iff]
  have hbeta : ∀ k, k ∈ m'.beta ↔ k ∈ m.beta := fun k => by
    rw [Table.mem_iff, hframe.beta, ← Table.mem_iff]
  have hgamma : ∀ k, k ∈ m'.gamma ↔ k ∈ m.gamma := fun k => by
    rw [Table.mem_iff, hframe.gamma, ← Table.mem_iff]
  obtain ⟨husers, hitems, hlistedItems, hlistedUsers, hneighbors⟩ := h
  simp only [← htheta, ← hbeta, ← hgamma] at husers hitems hlistedItems hlistedUsers hneighbors
  exact ⟨husers, hitems, hlistedItems, hlistedUsers, hneighbors⟩

/-- Rows in which nothing is met but what they list are all in all **a list of that**. -/
theorem flatMap_of_listed {rows : List (Key × List Key)}
    {met : Key × List Key → Meeting → List Key} {listed : Meeting}
    (h : ∀ row ∈ rows, ∀ what, met row what = if what = listed then row.2 else []) (what : Meeting) :
    (rows.flatMap fun row => met row what)
      = if what = listed then (rows.map Prod.snd).flatten else [] := by
  rw [List.flatMap_congr fun row hrow => h row hrow what]
  split
  · rfl
  · exact List.flatMap_eq_nil_iff.2 fun _ _ => rfl

/-- Where everything is known, a sweep over users meets **only what is listed**. -/
theorem Knows.tally_users {m : Model α n} {t : Training ρ} (h : m.Knows t) :
    tally (m.roll.meets (.updateUsers t.userItems : Operation ρ))
      = listing .thetaTotal .thetaTrainable t.userItems.values.flatten.length := by
  have hrow : ∀ row ∈ t.userItems.entries, ∀ what,
      m.roll.meetsUser row what = if what = .listedItem then row.2 else [] := by
    intro row hrow what
    have hu : row.1 ∈ m.roll.users := Table.mem_domain.2 (h.users _ (List.mem_map_of_mem hrow))
    have hi : ∀ i ∈ row.2, i ∈ m.roll.items := fun i hi =>
      Table.mem_domain.2 (h.listedItems row hrow i hi)
    cases what <;> simp only [Roll.meetsUser, hu, if_true, reduceCtorEq, if_false]
    exact List.filter_eq_nil_iff.2 fun i hmem hnot => of_decide_eq_true hnot (hi i hmem)
  funext what
  cases what <;> simp [tally, Roll.meets, flatMap_of_listed hrow, listing, Table.values]

/-- Where everything is known, a sweep over items meets **only what is listed**. -/
theorem Knows.tally_items {m : Model α n} {t : Training ρ} (h : m.Knows t) :
    tally (m.roll.meets (.updateItems t.itemUsers t.rows))
      = listing .betaTotal .betaTrainable t.itemUsers.values.flatten.length := by
  have hrow : ∀ row ∈ t.itemUsers.entries, ∀ what,
      m.roll.meetsItem t.rows row what = if what = .listedUser then row.2 else [] := by
    intro row hrow what
    have hi : row.1 ∈ m.roll.items := Table.mem_domain.2 (h.items _ (List.mem_map_of_mem hrow))
    have hu : ∀ u ∈ row.2, u ∈ m.roll.users := fun u hu =>
      Table.mem_domain.2 (h.listedUsers row hrow u hu)
    have hneighbors : ∀ j ∈ ((t.rows.get? row.1).getD []).map Prod.fst, j ∈ m.roll.items := by
      intro j hj
      obtain ⟨e, he, rfl⟩ := List.mem_map.1 hj
      cases hr : t.rows.get? row.1 with
      | none =>
          rw [hr] at he
          cases he
      | some es =>
          rw [hr] at he
          exact Table.mem_domain.2 ((h.neighbors _ (Table.mem_entries_of_get? hr)).2 e he).1
    cases what <;> simp only [Roll.meetsItem, hi, if_true, reduceCtorEq, if_false]
    · exact List.filter_eq_nil_iff.2 fun u hmem hnot => of_decide_eq_true hnot (hu u hmem)
    · exact List.filter_eq_nil_iff.2 fun j hmem hnot => of_decide_eq_true hnot (hneighbors j hmem)
  funext what
  cases what <;> simp [tally, Roll.meets, flatMap_of_listed hrow, listing, Table.values]

section

variable [Scalar α] [Operand ρ α] {census : Counted → ℤ}

/-- What an **iteration** counts. -/
def iteration (t : Training ρ) : Counted → ℤ :=
  listing .thetaTotal .thetaTrainable t.userItems.values.flatten.length
    + listing .betaTotal .betaTrainable t.itemUsers.values.flatten.length

theorem shows_iterate {m : Model α n} (haligned : m.Aligned) {t : Training ρ} (hknows : m.Knows t)
    (h : m.counters.Shows census) (hf : (m.iterate t).fault = none) :
    (m.iterate t).state.counters.Shows (census + iteration t) := by
  obtain ⟨husers, hitems⟩ := Outcome.bind_done_iff.1 hf
  have hframe := (keeps_updateUsers m t.userItems).frame
  have hknows' := hknows.of_frame hframe
  have hcounted := shows_updateItems (haligned.of_frame hframe) t.itemUsers t.rows
    (shows_updateUsers (ρ := ρ) t.userItems h husers) hitems
  rw [hknows.tally_users, hknows'.tally_items, add_assoc] at hcounted
  rw [iterate, Outcome.bind_of_done husers, iteration]
  exact hcounted

end

end Model

/-! ### Runs -/

namespace Run

variable [Scalar α] [One ρ] [Operand ρ α] {t : Training ρ} {rule : StopRule α} {r : Run α n}
  {census : Counted → ℤ}

/-- What is known before a run and has been counted **after so many iterations** of it. -/
structure Counts (t : Training ρ) (census : Counted → ℤ) (r : Run α n) : Prop where
  aligned : r.model.Aligned
  knows : r.model.Knows t
  shows : r.model.counters.Shows (census + r.completed • Model.iteration t)

/-- An iteration that is completed counts **once more** what the tables list. -/
theorem Counts.step [Machine] (h : r.Counts t census) (hf : (Run.step t rule r).fault = none) :
    (Run.step t rule r).state.1.Counts t census := by
  obtain ⟨hiter, ⟨source, hmodel⟩, hcompleted⟩ := step_model_of_done hf
  have hframe := (Model.keeps_iterate h.aligned t).frame
  have hcounted := Model.shows_iterate h.aligned h.knows h.shows hiter
  refine ⟨?_, ?_, ?_⟩
  · rw [hmodel]
    exact (h.aligned.of_frame hframe).of_frame (Model.Frame.withSource _ source)
  · rw [hmodel]
    exact (h.knows.of_frame hframe).of_frame (Model.Frame.withSource _ source)
  · rw [hmodel, hcompleted, succ_nsmul, ← add_assoc]
    exact hcounted

/-- What a **run** counts. -/
theorem counts_loop [Machine] (h : r.Counts t census) {left : ℕ}
    (hf : (loop t rule left r).fault = none) : (loop t rule left r).state.Counts t census :=
  loop_invariant (fun q => q.Counts t census) (fun _ hq hdone => hq.step hdone) h hf

/-- Whatever the tables mention is known **in every iteration**. -/
theorem counts_of_mem_path [Machine] (h : r.Counts t census) {left : ℕ} {q : Run α n}
    (hq : q ∈ path t rule left r) : q.Counts t census :=
  (forall_mem_path (P := fun q => q.Counts t census) (fun _ hq hdone => hq.step hdone) h q hq).1

end Run

/-! ### Registration -/

/-- The **users and the items** of some tables. -/
def Training.registration (t : Training ρ) : Counted → ℤ :=
  Pi.single .users (t.userItems.keys.length : ℤ) + Pi.single .items (t.itemUsers.keys.length : ℤ)

/-- Registration from nothing counts **the users and the items**. -/
theorem Recommender.shows_registered [Machine] [Numeral α] {t : Training ρ} {hyper : Hyper α}
    {globalBias : α} {source : Source}
    (hf : (registered t (Model.empty hyper globalBias source : Model α n)).fault
      = none) :
    (registered t (Model.empty hyper globalBias source : Model α n)).state.counters.Shows
      t.registration := by
  obtain ⟨husers, hitems⟩ := Outcome.bind_done_iff.1 hf
  let users := t.userItems.keys.toFinset
  let items := t.itemUsers.keys.toFinset
  obtain ⟨hroll, hcounted⟩ := Model.shows_registerUsers t.userItems.keys
    Counters.shows_complete husers
  obtain ⟨-, hshows⟩ := Model.shows_registerItems t.itemUsers.keys hcounted hitems
  have hcensus : 0 + ((⟨∅ ∪ users, ∅⟩ : Roll).size - (⟨∅, ∅⟩ : Roll).size)
      + ((⟨∅ ∪ users, ∅ ∪ items⟩ : Roll).size - (⟨∅ ∪ users, ∅⟩ : Roll).size)
      = t.registration := by
    rw [zero_add, add_comm, sub_add_sub_cancel, Finset.empty_union, Finset.empty_union, Roll.size,
      Roll.size, Finset.card_empty, Nat.cast_zero, Pi.single_zero, Pi.single_zero, add_zero,
      sub_zero, List.toFinset_card_of_nodup t.userItems.nodup_keys,
      List.toFinset_card_of_nodup t.itemUsers.nodup_keys]
    rfl
  rw [hroll] at hshows
  rw [registered, Outcome.bind_of_done husers, ← hcensus]
  exact hshows

/-! ### Fits to a log -/

section

variable [Numeral α]

/-- Everything that tables of a log mention is **registered**, if no user is missing. -/
theorem Training.Harvested.knows [Machine] {t : Training α} {f : Frame α} {s : Selection α}
    {shift : Setting α} {tables : Tables}
    {training : List (Key × Key)} (h : t.Harvested f s shift tables training)
    (hu : ∀ p ∈ training, p.1 ≠ .missing) {m : Model α n} (haligned : m.Aligned)
    (htheta : m.theta.keys = t.userItems.keys) (hbeta : m.beta.keys = t.itemUsers.keys) :
    m.Knows t := by
  have husers : ∀ p ∈ training, p.1 ∈ m.theta := fun p hp => by
    rw [Table.mem_iff, htheta, h.userItems]
    exact (h.hold.users p.1).2 ⟨hu p hp, p.2, hp⟩
  have hitems : ∀ p ∈ training, p.2 ∈ m.beta := fun p hp => by
    rw [Table.mem_iff, hbeta, h.itemUsers]
    exact (h.hold.items p.2).2 ⟨p.1, hp⟩
  have hknown : ∀ i ∈ t.itemUsers, i ∈ m.beta ∧ i ∈ m.gamma := fun i hi => by
    rw [Table.mem_iff, Table.mem_iff, haligned.gamma, hbeta]
    exact ⟨hi, hi⟩
  exact {
    users := fun u hu => by
      rw [Table.mem_iff, htheta]
      exact hu
    items := fun i hi => (hknown i hi).1
    listedItems := fun row hrow i hi => hitems _ (h.mem_of_mem_userItems hrow hi)
    listedUsers := fun row hrow u hu => husers _ (h.mem_of_mem_itemUsers hrow hu)
    neighbors := fun row hrow => by
      obtain ⟨hitem, hlisted⟩ := h.mem_items_of_mem_rows hrow
      exact ⟨(hknown _ hitem).1, fun e he => hknown _ (hlisted e he)⟩ }

/-- The number of **different users and items** of some pairs that are held in tables. -/
theorem Tables.Hold.length_keys {t : Tables} {training : List (Key × Key)} (h : t.Hold training)
    (hu : ∀ p ∈ training, p.1 ≠ .missing) :
    t.users.length = (training.map Prod.fst).toFinset.card ∧
      t.items.length = (training.map Prod.snd).toFinset.card := by
  have hlength : ∀ {ν : Type} (t : Table Key ν) (ks : List Key), (∀ k, k ∈ t.keys ↔ k ∈ ks) →
      t.keys.length = ks.toFinset.card := by
    intro ν t ks hmem
    rw [← List.toFinset_card_of_nodup t.nodup_keys]
    refine congrArg Finset.card (Finset.ext fun k => ?_)
    rw [List.mem_toFinset, List.mem_toFinset, hmem]
  refine ⟨hlength _ _ fun u => (h.users u).trans ?_, hlength _ _ fun i => (h.items i).trans ?_⟩
  · rw [List.mem_map]
    constructor
    · rintro ⟨-, i, hp⟩
      exact ⟨(u, i), hp, rfl⟩
    · rintro ⟨p, hp, rfl⟩
      exact ⟨hu p hp, p.2, hp⟩
  · rw [List.mem_map]
    constructor
    · rintro ⟨u, hp⟩
      exact ⟨(u, i), hp, rfl⟩
    · rintro ⟨p, hp, rfl⟩
      exact ⟨p.1, hp⟩

/-- What a fit counts that **passes over nothing**: its users and items, and each of its pairs once
in every sweep, among those that are listed and among those that are known. -/
def fullCensus (users items pairs iterations : ℕ) : Counted → ℤ
  | .users => users
  | .items => items
  | .skippedUsers | .skippedItems => 0
  | .thetaTotal | .thetaTrainable | .betaTotal | .betaTrainable => iterations * pairs

omit [Numeral α] in
theorem registration_add_nsmul_iteration {t : Training α} {pairs : ℕ}
    (husers : t.userItems.values.flatten.length = pairs)
    (hitems : t.itemUsers.values.flatten.length = pairs) (iterations : ℕ) :
    t.registration + iterations • Model.iteration t
      = fullCensus t.userItems.keys.length t.itemUsers.keys.length pairs iterations := by
  funext what
  cases what <;>
    simp [Training.registration, Model.iteration, listing, fullCensus, husers, hitems]

/-- A fit that goes through has **the counters of its run**. -/
theorem Recommender.counters_fitTables [Machine] [One ρ] [Operand ρ α] {r : Recommender α}
    {t : Training ρ} {m : Model α n} {rule : StopRule α} {most : ℕ}
    (hm : newModel r.config = .ok ⟨n, m⟩)
    (hs : schedule r.config = .ok (rule, most)) (hreg : (registered t m).fault = none)
    (hl : (Run.loop t rule most (Run.start (registered t m).state)).fault = none) :
    (r.fitTables t).state.counters
      = (Run.loop t rule most (Run.start (registered t m).state)).state.model.counters := by
  rw [fitTables]
  simp only [hm, train, hreg, hs, hl]
  rfl

/-- **A fit to a log passes over nothing**, if no user is missing in the log: of its training pairs
it counts the different users, the different items, and each pair once in every sweep over users and
once in every sweep over items, and it skips none. For whatever the tables mention, as a key, in a
row or as a neighbour, is known to the model in every sweep. -/
theorem fit_counts_every_pair [Machine] (r : Recommender α) (f : Frame α) (s : Selection α)
    (hpresent : ∀ users, f.column s.userColumn = .ok users → ∀ u ∈ users, u.key ≠ .missing)
    (hf : (r.fit f s).fault = none) :
    ∃ t tables training fitted, Recommender.trainingOf f s (r.config.settings .shift) = .ok t ∧
      t.Harvested f s (r.config.settings .shift) tables training ∧ t.size = training.length ∧
      (r.fit f s).state.fitted = some fitted ∧
      (r.config.Sweeps → (r.fit f s).state.iterations = fitted.history.length) ∧
      (r.fit f s).state.counters.Shows (fullCensus (training.map Prod.fst).toFinset.card
        (training.map Prod.snd).toFinset.card training.length fitted.history.length) ∧
      ∀ m ∈ r.along (fun _ q => (⟨_, q.model⟩ : (n : ℕ) × Model α n)) t,
        m.2.Knows t ∧ (m.2.updateUsers t.userItems).state.Knows t := by
  obtain ⟨t, ht, hfit⟩ := Recommender.fit_of_done hf
  obtain ⟨tables, training, hharvested⟩ := Recommender.exists_harvested ht
  rw [hfit] at hf ⊢
  have hu : ∀ p ∈ training, p.1 ≠ .missing := fun p hp =>
    hharvested.deals.user_ne hpresent p (List.mem_append_left _ hp)
  obtain ⟨hcountUsers, hcountItems⟩ := hharvested.hold.length_keys hu
  obtain ⟨fitted, hfitted, -, -, hlength⟩ := Recommender.fitted_of_fitTables hf
  obtain ⟨n, m, rule, most, hm, hs, hreg, hloop, -⟩ := Recommender.fitTables_of_done hf
  obtain ⟨hyper, globalBias, source, rfl, -⟩ := Recommender.newModel_eq_ok hm
  obtain ⟨htheta, hbeta, haligned⟩ := Recommender.keys_registered hreg
  let start : Run α n :=
    Run.start (Recommender.registered t (Model.empty hyper globalBias source)).state
  have hstart : start.Counts t t.registration := by
    refine ⟨haligned, hharvested.knows hu haligned htheta hbeta, ?_⟩
    have hshows := Recommender.shows_registered hreg
    rw [← add_zero t.registration, ← zero_nsmul (Model.iteration t)] at hshows
    exact hshows
  have hcompleted : (Run.loop t rule most start).state.completed = fitted.history.length := by
    rw [hlength, Run.completed_loop, Recommender.trail_eq hm hs hreg, List.length_map]
    exact Nat.zero_add _
  have hcounts := (Run.counts_loop hstart hloop).shows
  rw [hcompleted, registration_add_nsmul_iteration (hharvested.length_userItems hu)
    hharvested.length_itemUsers, hharvested.userItems, hharvested.itemUsers] at hcounts
  refine ⟨t, tables, training, fitted, ht, hharvested, hharvested.length_itemUsers, hfitted,
    fun hsweeps => ?_, ?_, ?_⟩
  · rw [Recommender.iterations_fitTables, hlength,
      if_neg (Recommender.length_trail_ne_zero hsweeps hf)]
  · rw [Recommender.counters_fitTables hm hs hreg hloop, ← hcountUsers, ← hcountItems]
    exact hcounts
  · intro m' hm'
    rw [Recommender.along_eq _ hm hs hreg, List.mem_map] at hm'
    obtain ⟨q, hq, rfl⟩ := hm'
    have hknows := (Run.counts_of_mem_path hstart hq).knows
    exact ⟨hknows, hknows.of_frame (Model.keeps_updateUsers q.model t.userItems).frame⟩

end

/-- A log of three pairs, with an item that two users have: **six lists of one pair** each, three in
either sweep. -/
theorem fit_counts_every_pair_chain :
    letI := Spelling.silent
    let f : Frame ℝ := .ofColumns [("reviewerID", [.text "u", .text "u", .text "v"]),
      ("asin", [.text "a", .text "b", .text "b"])]
    let r := Recommender.ofConfig (Config.ones .objective 1)
    (∀ users, f.column (.text "reviewerID") = .ok users → ∀ u ∈ users, u.key ≠ .missing) ∧
      (r.fit f Selection.standard).fault = none ∧
      (r.fit f Selection.standard).state.counters.Shows (fullCensus 2 2 3 1) := by
  let _ := Spelling.silent
  intro f r
  let log : List (Key × Key) :=
    [(.text "u", .text "a"), (.text "u", .text "b"), (.text "v", .text "b")]
  have hpresent : ∀ users, f.column (.text "reviewerID") = .ok users →
      ∀ u ∈ users, u.key ≠ .missing := by
    intro users husers
    obtain rfl := Except.ok.inj ((rfl : _ = f.column (.text "reviewerID")).trans husers)
    decide
  have hpopular : popular (fun k => Scalar.le (Scalar.ofInt 1 : ℝ) (Scalar.ofNat k)) log = log := by
    rw [popular_eq_filter, List.filter_eq_self]
    intro p hp
    have hsome : 1 ≤ userCount log p.2 ∧ p.2 ≠ .missing := by
      revert p
      decide
    rw [Bool.and_eq_true_iff, decide_eq_true_iff, Scalar.le_real, Scalar.ofInt_real,
      Scalar.ofNat_real]
    exact ⟨hsome.2, by exact_mod_cast hsome.1⟩
  have htables : Tables.ofFrame f Selection.standard = .ok (Tables.ofPairs log []) := by
    refine bind_eq_ok_iff.2 ⟨log, rfl, bind_eq_ok_iff.2 ⟨_, rfl, bind_eq_ok_iff.2 ⟨31, rfl, ?_⟩⟩⟩
    refine bind_eq_ok_iff.2 ⟨⟨31, 0⟩, rfl, bind_eq_ok_iff.2 ⟨0, rfl, ?_⟩⟩
    rw [hpopular, split_zero]
    rfl
  have hcheck : (Selection.standard : Selection ℝ).check = .ok () :=
    bind_eq_ok_iff.2 ⟨true, Setting.isShare_of_le (x := 0) rfl le_rfl zero_le_one, rfl⟩
  have hf := fit_ones .objective 1 rfl hcheck htables
  obtain ⟨t, tables, training, fitted, htaken, ht, hsize, hfitted, -, hcounts, -⟩ :=
    fit_counts_every_pair r f Selection.standard hpresent hf
  obtain rfl : Tables.ofPairs log [] = tables := Except.ok.inj (htables.symm.trans ht.ofFrame)
  obtain ⟨husers, hitems⟩ := ht.hold.length_keys fun p hp =>
    ht.deals.user_ne hpresent p (List.mem_append_left _ hp)
  have hpairs : training.length = 3 := by
    rw [← hsize, Training.size, ht.itemUsers]
    decide
  have honce : fitted.history.length = 1 := by
    rw [Recommender.fit_of_ok htaken] at hf hfitted
    obtain ⟨fitted', rule, most, hfitted', hs, -, hlength, -⟩ := Recommender.history_of_done hf
    obtain rfl : fitted' = fitted := Option.some.inj (hfitted'.symm.trans hfitted)
    obtain ⟨rule', hs'⟩ := schedule_ones .objective 1
    obtain ⟨-, rfl⟩ := Prod.mk.inj (Except.ok.inj (hs'.symm.trans hs))
    omega
  rw [← husers, ← hitems, hpairs, honce] at hcounts
  exact ⟨hpresent, hf, hcounts⟩

end CoEmbed
