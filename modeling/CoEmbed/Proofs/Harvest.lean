import CoEmbed.Proofs.Exact.Neighbors
import CoEmbed.Proofs.Objective.Fit
import CoEmbed.Proofs.Partition

/-!
# What is Taken from a Log

A fit to a log takes tables from it, and rows of neighbours from the tables. All of them speak of
the same pairs: those of the training side.

* `Training.Harvested` — tables and rows of neighbours that are taken from a log.
* `Recommender.fit_of_done` — a fit to a log that goes through is one to what has been taken.
* `Harvested.length_userItems`, `Harvested.mem_row` — how much is listed, and of whom.
* `Harvested.transposed`, `Harvested.symmetric` — the tables fit together.
* `fit_ones` — in exact arithmetic a fit to what can be taken goes through.

## User convention

A pair without a user is listed under its item and under no user. Where no user is missing, both
tables list all pairs.
-/

namespace CoEmbed

variable {α : Type} [Machine] [Numeral α]

/-! ### Taking -/

/-- Tables and rows of neighbours that are **taken from a log**, with the training side of its
pairs. -/
structure Training.Harvested (t : Training α) (f : Frame α) (s : Selection α) (shift : Setting α)
    (tables : Tables) (training : List (Key × Key)) : Prop where
  check : s.check = .ok ()
  ofFrame : Tables.ofFrame f s = .ok tables
  deals : f.Deals s tables training
  rows : sppmiRows tables.matrix tables.items shift = .ok t.rows
  userItems : t.userItems = tables.userItems
  itemUsers : t.itemUsers = tables.itemUsers
  heldOut : t.heldOut = tables.heldOut

namespace Recommender

theorem exists_harvested {f : Frame α} {s : Selection α} {shift : Setting α} {t : Training α}
    (h : trainingOf f s shift = .ok t) :
    ∃ tables training, t.Harvested f s shift tables training := by
  obtain ⟨_, hcheck, h⟩ := bind_eq_ok_iff.1 h
  obtain ⟨tables, htables, h⟩ := bind_eq_ok_iff.1 h
  obtain ⟨rows, hrows, h⟩ := bind_eq_ok_iff.1 h
  obtain rfl := Except.ok.inj h
  obtain ⟨training, hdeals⟩ := Frame.exists_deals htables
  exact ⟨tables, training, hcheck, htables, hdeals, hrows, rfl, rfl, rfl⟩

theorem fit_of_ok {r : Recommender α} {f : Frame α} {s : Selection α} {t : Training α}
    (ht : trainingOf f s (r.config.settings .shift) = .ok t) : r.fit f s = r.fitTables t := by
  rw [fit, ht]

/-- A fit to a log that goes through is a fit to **what has been taken from it**. -/
theorem fit_of_done {r : Recommender α} {f : Frame α} {s : Selection α}
    (hf : (r.fit f s).fault = none) : ∃ t, trainingOf f s (r.config.settings .shift) = .ok t ∧
      r.fit f s = r.fitTables t := by
  cases ht : trainingOf f s (r.config.settings .shift) with
  | error e =>
      rw [fit, ht] at hf
      cases hf
  | ok t => exact ⟨t, rfl, fit_of_ok ht⟩

end Recommender

/-! ### What is listed -/

namespace Training.Harvested

variable {t : Training α} {f : Frame α} {s : Selection α} {shift : Setting α} {tables : Tables}
  {training : List (Key × Key)}

theorem nodup (h : t.Harvested f s shift tables training) : training.Nodup :=
  h.deals.nodup.of_append_left

/-- The tables **hold the training pairs**. -/
theorem hold (h : t.Harvested f s shift tables training) : tables.Hold training := by
  rw [h.deals.eq_ofPairs]
  exact Tables.hold_ofPairs h.nodup _

/-- The items list **each training pair** once. -/
theorem length_itemUsers (h : t.Harvested f s shift tables training) :
    t.itemUsers.values.flatten.length = training.length := by
  rw [h.itemUsers, h.deals.eq_ofPairs, ← Table.length_listed, Tables.ofPairs,
    (grouped_perm _).length_eq, List.length_map]

/-- So do the users, if **none of them is missing**. -/
theorem length_userItems (h : t.Harvested f s shift tables training)
    (hu : ∀ p ∈ training, p.1 ≠ .missing) :
    t.userItems.values.flatten.length = training.length := by
  rw [h.userItems, h.deals.eq_ofPairs, ← Table.length_listed, Tables.ofPairs,
    (grouped_perm _).length_eq, List.filter_eq_self.2 fun p hp => decide_eq_true (hu p hp)]

/-- An entry of the users is **a training pair**. -/
theorem mem_of_mem_userItems (h : t.Harvested f s shift tables training) {row : Key × List Key}
    (hrow : row ∈ t.userItems.entries) {i : Key} (hi : i ∈ row.2) : (row.1, i) ∈ training := by
  rw [h.userItems] at hrow
  have hu : row.1 ≠ .missing := ((h.hold.users row.1).1 (List.mem_map_of_mem hrow)).1
  rw [← h.hold.mem_row hu, Table.get?_of_mem_entries hrow]
  exact hi

/-- An entry of the items is **a training pair**. -/
theorem mem_of_mem_itemUsers (h : t.Harvested f s shift tables training) {row : Key × List Key}
    (hrow : row ∈ t.itemUsers.entries) {u : Key} (hu : u ∈ row.2) : (u, row.1) ∈ training := by
  rw [h.itemUsers] at hrow
  have hlisted := h.hold.rowOfItem row.1
  rw [Table.get?_of_mem_entries hrow, Option.getD_some] at hlisted
  rw [hlisted] at hu
  obtain ⟨p, hp, rfl⟩ := List.mem_map.1 hu
  obtain ⟨hmem, heq⟩ := List.mem_filter.1 hp
  rwa [← of_decide_eq_true heq]

/-- The items, and their neighbours, are those of **the training pairs**. -/
theorem mem_items_of_mem_rows (h : t.Harvested f s shift tables training) {row : Key × Row α}
    (hrow : row ∈ t.rows.entries) :
    row.1 ∈ t.itemUsers ∧ ∀ e ∈ row.2, e.1 ∈ t.itemUsers := by
  have hitems : ∀ k, k ∈ t.itemUsers ↔ k ∈ tables.items := fun k => by
    rw [h.itemUsers, Table.mem_iff, Tables.items]
  obtain ⟨M, -, hM⟩ := bind_eq_ok_iff.1 h.rows
  obtain ⟨t', ht', hkeys, -, hlisted⟩ := rowsOfMatrix_eq_ok M tables.itemUsers.nodup_keys
  obtain rfl : t.rows = t' := Except.ok.inj (hM.symm.trans ht')
  have hkey : row.1 ∈ tables.items := hkeys row.1 (List.mem_map_of_mem hrow)
  refine ⟨(hitems _).2 hkey, fun e he => (hitems _).2 ?_⟩
  obtain ⟨i, hi, hget⟩ := List.getElem_of_mem hkey
  have hrowOf := hlisted ⟨i, hi⟩
  rw [Fin.getElem_fin, hget, Table.get?_of_mem_entries hrow, Option.getD_some] at hrowOf
  rw [hrowOf, storedRow] at he
  obtain ⟨j, -, rfl⟩ := List.mem_map.1 he
  exact List.getElem_mem _

/-! ### Tables that fit together -/

/-- No row lists a key **twice**. -/
theorem distinct (h : t.Harvested f s shift tables training) :
    t.userItems.Distinct ∧ t.itemUsers.Distinct := by
  refine ⟨fun row hrow => ?_, fun row hrow => ?_⟩
  · rw [h.userItems] at hrow
    have hu : row.1 ≠ .missing := ((h.hold.users row.1).1 (List.mem_map_of_mem hrow)).1
    have hlisted := h.hold.rowOfUser row.1 hu
    rw [Table.get?_of_mem_entries hrow, Option.getD_some] at hlisted
    rw [hlisted]
    refine (h.nodup.filter _).map_on fun p hp q hq heq => Prod.ext ?_ heq
    exact (of_decide_eq_true (List.mem_filter.1 hp).2).trans
      (of_decide_eq_true (List.mem_filter.1 hq).2).symm
  · rw [h.itemUsers] at hrow
    have hlisted := h.hold.rowOfItem row.1
    rw [Table.get?_of_mem_entries hrow, Option.getD_some] at hlisted
    rw [hlisted]
    refine (h.nodup.filter _).map_on fun p hp q hq heq => Prod.ext heq ?_
    exact (of_decide_eq_true (List.mem_filter.1 hp).2).trans
      (of_decide_eq_true (List.mem_filter.1 hq).2).symm

/-- The users and the items **list each other**. -/
theorem transposed (h : t.Harvested f s shift tables training) : t.Transposed := by
  intro u hu i hi
  rw [h.userItems] at hu
  obtain ⟨hrow, hcolumn⟩ := h.hold.once u i ((h.hold.users u).1 hu).1
  rw [Training.seen, h.userItems, h.itemUsers, hrow, hcolumn]

end Training.Harvested

/-- In exact arithmetic items are **each other's neighbours** with the same weight. -/
theorem Training.Harvested.symmetric [Spelling] {t : Training ℝ} {f : Frame ℝ} {s : Selection ℝ}
    {shift : Setting ℝ} {tables : Tables} {training : List (Key × Key)}
    (h : t.Harvested f s shift tables training) {x : ℝ} (hshift : shift.measured = .ok x)
    (hx : 0 < x) : t.Symmetric := by
  obtain ⟨rows, hrows, -, -, hlisted, -, -, hsame, -⟩ :=
    sppmiRows_eq_ok tables.itemUsers.nodup_keys tables.matrix hshift hx
  obtain rfl : t.rows = rows := Except.ok.inj (h.rows.symm.trans hrows)
  intro i hi j hj w
  rw [h.itemUsers] at hi hj
  obtain ⟨a, ha, rfl⟩ := List.getElem_of_mem (Table.mem_iff.1 hi)
  obtain ⟨b, hb, rfl⟩ := List.getElem_of_mem (Table.mem_iff.1 hj)
  have hnodup : ∀ k (hk : k < tables.itemUsers.keys.length),
      (t.row tables.itemUsers.keys[k]).Nodup := fun k hk => (hlisted ⟨k, hk⟩).1.of_map _
  rw [(hnodup a ha).count, (hnodup b hb).count]
  exact if_congr (hsame ⟨a, ha⟩ ⟨b, hb⟩ w) rfl rfl

/-- Where **nothing is held out**, all distinct pairs are trained on. -/
theorem split_zero (source : Source) (log : List (Key × Key)) :
    split (0 : ℝ) source log = (distinct log, []) := by
  have hside : ∀ k, Scalar.lt (source.unit k) (0 : ℝ) = false := fun k =>
    Scalar.lt_real_eq_false.2 (div_nonneg (Nat.cast_nonneg _) (Nat.cast_nonneg _))
  simp only [split, divide_units, hside, Bool.not_false, dealt, List.filter_true, List.filter_false,
    List.zipIdx_map_fst, List.map_nil]

/-- In exact arithmetic a fit to **what can be taken from a log** goes through. -/
theorem fit_ones [Spelling] (metric : Metric) (most : ℕ) (hroom : roomFor 1 = .ok ())
    {f : Frame ℝ} {s : Selection ℝ} (hcheck : s.check = .ok ()) {tables : Tables}
    (htables : Tables.ofFrame f s = .ok tables) :
    ((Recommender.ofConfig (Config.ones metric most)).fit f s).fault = none := by
  have hshift : (Setting.real (1 : ℝ)).measured = .ok 1 := rfl
  obtain ⟨rows, hrows, -⟩ :=
    sppmiRows_eq_ok tables.itemUsers.nodup_keys tables.matrix hshift zero_lt_one
  have ht : Recommender.trainingOf f s (.real 1)
      = .ok ⟨tables.userItems, tables.itemUsers, rows, tables.heldOut⟩ :=
    bind_eq_ok_iff.2 ⟨(), hcheck, bind_eq_ok_iff.2 ⟨tables, htables,
      bind_eq_ok_iff.2 ⟨rows, hrows, rfl⟩⟩⟩
  obtain ⟨tables', training, hharvested⟩ := Recommender.exists_harvested ht
  obtain ⟨hu, hi⟩ := hharvested.distinct
  have hdone := fitTables_ones metric most hroom hu hi hharvested.transposed
    (hharvested.symmetric hshift zero_lt_one)
  rw [Recommender.fit_of_ok (r := Recommender.ofConfig (Config.ones metric most)) ht]
  exact hdone

end CoEmbed
