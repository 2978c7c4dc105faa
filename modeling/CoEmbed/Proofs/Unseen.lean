import CoEmbed.Proofs.Floating.Line
import CoEmbed.Proofs.Harvest
import CoEmbed.Proofs.Latest
import CoEmbed.Proofs.Masked
import CoEmbed.Proofs.Refit

/-!
# Trials on Unseen Pairs

A recommender that has been trained on a log is tried on the pairs of the log that were held out.
The tables are taken from the log a second time, and nothing that the recommender is tried on was
among what it was trained on.

* `holders_eq_entries` — the users with their held-out items.
* `Recommender.not_mem_history` — nothing is recommended that is in the history, unless some other
  item scores negative infinity.
* `Recommender.exists_evaluate` — what has been fitted can be evaluated.
* `Trial.Unseen`, `Trial.unseen_of_deals` — a trial on pairs that are not trained on.
* `evaluationSelection_eq` — what is evaluated on and what is trained on are selected alike.
* `trial_is_unseen` — the trial of a recommender that has been trained on a log.
* `mem_history_of_inaudible` — a recommender that suggests what it has been trained with.

## Trial convention

A trial asks once for each user with a held-out item, and gives the user's row for a history. A user
without a row has no history.
-/

namespace CoEmbed

/-! ### Holders -/

variable {α : Type}

/-- Where **no user is missing**, the holders are the users, each with all of the held-out items. -/
theorem holders_eq_entries (users : List (Setting α)) {pairs : List (Key × Key)}
    (h : ∀ p ∈ pairs, p.1 ≠ .missing) : holders users pairs = (heldOutByUser pairs).entries := by
  have htagged : (pairs.zipIdx.map fun e =>
      ((e.1.1, if isRealColumn users && e.1.1 = .missing then e.2 else 0), e.1.2))
        = pairs.map fun p => ((p.1, 0), p.2) := by
    conv_rhs => rw [← List.zipIdx_map_fst 0 pairs, List.map_map]
    refine List.map_congr_left fun e he => ?_
    have huser : e.1.1 ≠ .missing :=
      h e.1 (List.mem_of_getElem? (List.mem_zipIdx_iff_getElem?.1 he))
    simp only [decide_eq_false huser, Bool.and_false, Bool.false_eq_true, if_false,
      Function.comp_apply]
  have htag : Function.Injective fun k : Key => (k, 0) := fun k l hkl => congrArg Prod.fst hkl
  rw [holders, htagged, entries_grouped_map htag, List.map_map]
  exact List.map_id _

/-! ### Recommendations -/

variable [Numeral α]

/-- A recommender that has been fitted **has something to say** whenever it is asked for so many
items. -/
theorem Recommender.exists_recommend {r : Recommender α} {f : Fitted α} (hf : r.fitted = some f)
    (user : Key) (history : List Key) (count : ℤ) :
    ∃ items, r.recommend user history (.integer count) = .ok items := by
  rw [recommend, hf]
  dsimp only
  split
  · exact ⟨[], rfl⟩
  · exact ⟨_, rfl⟩

/-- What it says is none of the history, unless some other item scores **negative infinity**. -/
theorem Recommender.not_mem_history [Numeral.Valued α] {r : Recommender α} {f : Fitted α}
    (hf : r.fitted = some f) {user : Key} {history items : List Key} {count : Setting α}
    (haudible : f.Audible user history) (h : r.recommend user history count = .ok items) {i : Key}
    (hi : i ∈ items) : i ∉ history := by
  rw [recommend, hf] at h
  dsimp only at h
  split at h
  · obtain rfl := Except.ok.inj h
    cases hi
  · obtain ⟨k, -, h⟩ := bind_eq_ok_iff.1 h
    obtain rfl := Except.ok.inj h
    exact Fitted.not_mem_history haudible hi

/-- A recommender that has been fitted can be **evaluated**. -/
theorem Recommender.exists_evaluate {r : Recommender α} {f : Fitted α} (hf : r.fitted = some f)
    (histories : Table Key (List Key)) (heldOut : List (Key × List Key)) (k : ℤ) :
    ∃ metrics, r.evaluate histories heldOut (.rank k) = .ok metrics := by
  have hstep : ∀ (t : TopK α) (q : Query × List Key), ∃ t',
      ((r.recommend q.1.user q.1.history (.integer q.1.count)).map fun items =>
        t.add items q.2 k) = .ok t' := by
    intro t q
    obtain ⟨items, hitems⟩ := exists_recommend hf q.1.user q.1.history q.1.count
    exact ⟨t.add items q.2 k, by rw [hitems]; rfl⟩
  obtain ⟨t, ht⟩ := exists_foldlM hstep (queries histories heldOut k) TopK.none
  refine ⟨t.mean, ?_⟩
  rw [evaluate, CutOff.evaluate, evaluateTopK, ht]
  rfl

/-! ### Trials -/

/-- A trial on **unseen pairs**, for a recommender that has been trained on some others: the
held-out pairs are grouped by their users, who are asked for once each. Nothing that is asked for is
among the training pairs, nor is anything that is answered, unless a score is negative infinity. -/
structure Trial.Unseen (t : Trial) (r : Recommender α) (training : List (Key × Key)) : Prop where
  /-- Held-out pairs are grouped, without loss or repetition. -/
  listed : (t.holders.flatMap fun e => e.2.map (Prod.mk e.1)).Perm t.tables.heldOut
  nodup : (t.holders.map Prod.fst).Nodup
  /-- Each holder is asked for once. -/
  asked : t.queries.map (fun q => (q.1.user, q.2)) = t.holders
  /-- What is held out is in no table. -/
  unlisted : ∀ q ∈ t.queries, ∀ i ∈ q.2, (q.1.user, i) ∉ training ∧
    i ∉ (t.tables.userItems.get? q.1.user).getD [] ∧
    q.1.user ∉ (t.tables.itemUsers.get? i).getD []
  /-- Nor is it in the matrix. -/
  unmarked : ∀ q ∈ t.queries, ∀ i ∈ q.2, ∀ row column,
    (q.1.user, row) ∈ Tables.places t.tables.userItems →
    (i, column) ∈ Tables.places t.tables.itemUsers →
    ∃ v : Vec α t.tables.items.length, t.tables.matrix[row]? = some v ∧ v[column]? = some 0
  /-- A history is the whole row of a user. -/
  history : ∀ q ∈ t.queries, q.1.history = (t.tables.userItems.get? q.1.user).getD [] ∧
    ∀ i, i ∈ q.1.history ↔ (q.1.user, i) ∈ training
  /-- What is recommended is none of the user's training items, unless another item scores negative
  infinity, as they do. -/
  recommended : ∀ q ∈ t.queries, ∃ f items, r.fitted = some f ∧
    r.recommend q.1.user q.1.history (.integer q.1.count) = .ok items ∧
      (f.Audible q.1.user q.1.history → ∀ i ∈ items, (q.1.user, i) ∉ training)

namespace Trial

omit [Numeral α] in
/-- A trial asks about a holder, and **gives the holder's row**. -/
theorem mem_queries {t : Trial} {q : Query × List Key} (h : q ∈ t.queries) :
    (q.1.user, q.2) ∈ t.holders ∧
      q.1.history = (t.tables.userItems.get? q.1.user).getD [] := by
  obtain ⟨e, he, rfl⟩ := List.mem_map.1 h
  exact ⟨(List.mem_filter.1 he).1, rfl⟩

omit [Numeral α] in
/-- A trial asks about **all holders**, where each of them has a held-out item. -/
theorem map_queries {t : Trial} (h : ∀ e ∈ t.holders, e.2 ≠ []) :
    t.queries.map (fun q => (q.1.user, q.2)) = t.holders := by
  rw [queries, CoEmbed.queries, List.map_map, List.filter_eq_self.2]
  · exact List.map_id _
  · intro e he
    rw [Bool.not_eq_true', List.isEmpty_eq_false_iff]
    exact h e he

/-- A trial is on unseen pairs if its tables are those of the training side, and **every pair has a
user**. -/
theorem unseen_of_deals [Numeral.Valued α] {f : Frame α} {s : Selection α} {t : Trial}
    {training : List (Key × Key)} (hdeals : f.Deals s t.tables training)
    (huser : ∀ p ∈ training ++ t.tables.heldOut, p.1 ≠ .missing)
    (hholders : t.holders = (heldOutByUser t.tables.heldOut).entries) {r : Recommender α}
    {fitted : Fitted α} (hr : r.fitted = some fitted) : t.Unseen r training := by
  have hhold : t.tables.Hold training := by
    rw [hdeals.eq_ofPairs]
    exact Tables.hold_ofPairs hdeals.nodup.of_append_left _
  have hlisted : (t.holders.flatMap fun e => e.2.map (Prod.mk e.1)).Perm t.tables.heldOut := by
    rw [hholders]
    exact grouped_perm t.tables.heldOut
  have hheldOut : ∀ q ∈ t.queries, ∀ i ∈ q.2, (q.1.user, i) ∈ t.tables.heldOut := fun q hq i hi =>
    hlisted.mem_iff.1 (List.mem_flatMap.2 ⟨_, (mem_queries hq).1, List.mem_map_of_mem hi⟩)
  have hunseen : ∀ q ∈ t.queries, ∀ i ∈ q.2, (q.1.user, i) ∉ training := fun q hq i hi hmem =>
    hdeals.nodup.disjoint hmem (hheldOut q hq i hi)
  have hpresent : ∀ q ∈ t.queries, q.1.user ≠ .missing := by
    intro q hq
    have hholder := (mem_queries hq).1
    rw [hholders] at hholder
    have hne : q.2 ≠ [] := ne_nil_of_mem_grouped (e := (q.1.user, q.2)) hholder
    obtain ⟨i, hi⟩ := List.exists_mem_of_ne_nil q.2 hne
    exact huser _ (List.mem_append_right _ (hheldOut q hq i hi))
  have hhistory : ∀ q ∈ t.queries, ∀ i, i ∈ q.1.history ↔ (q.1.user, i) ∈ training := by
    intro q hq i
    rw [(mem_queries hq).2]
    exact hhold.mem_row (hpresent q hq) i
  refine ⟨hlisted, ?_, ?_, fun q hq i hi => ⟨hunseen q hq i hi, ?_, ?_⟩, ?_, ?_, ?_⟩
  · rw [hholders]
    exact (heldOutByUser t.tables.heldOut).nodup_keys
  · refine map_queries fun e he => ?_
    rw [hholders] at he
    exact ne_nil_of_mem_grouped he
  · rw [hhold.mem_row (hpresent q hq)]
    exact hunseen q hq i hi
  · rw [hhold.mem_column (hpresent q hq)]
    exact hunseen q hq i hi
  · intro q hq i hi row column hrow hcolumn
    obtain ⟨v, hv, hentry⟩ := Tables.matrix_of_hold (α := α) hhold hrow hcolumn
    rw [if_neg (hunseen q hq i hi)] at hentry
    exact ⟨v, hv, hentry⟩
  · exact fun q hq => ⟨(mem_queries hq).2, hhistory q hq⟩
  · intro q hq
    obtain ⟨items, hitems⟩ := Recommender.exists_recommend hr q.1.user q.1.history q.1.count
    exact ⟨fitted, items, hr, hitems, fun haudible i hi hmem =>
      Recommender.not_mem_history hr haudible hitems hi ((hhistory q hq i).2 hmem)⟩

end Trial

/-! ### After a training -/

/-- What is evaluated on is **what has been trained on**: the two selections agree in all parts. -/
theorem evaluationSelection_eq (c : Config α) (cutoff : ℤ) :
    evaluationSelection c cutoff = trainingSelection c cutoff := rfl

/-- **A recommender is tried only on pairs that it has never seen.** After a fit that goes through,
the tables that are taken from the log once more are those that it was fitted to, its evaluation
cannot fail, and the trial is on unseen pairs, provided that no user is missing in the log. What is
recommended in it has not been trained on either, unless an unknown item scores negative infinity.
Where no day is given for the cut-off, no row with a time is left out. -/
theorem trial_is_unseen [Machine] [Numeral.Valued α] {c : Config α} {f : Frame α}
    {day : Option String} {cutoff : ℤ} {shown : String}
    (hpresent : ∀ users, f.column (.text "reviewerID") = .ok users → ∀ u ∈ users, u.key ≠ .missing)
    (hcutoff : cutoffTime day f = .ok cutoff) (hshown : cutoffText cutoff = .ok shown)
    (hf : ((Recommender.ofConfig c).fit f (trainingSelection c cutoff)).fault = none) :
    ∃ t trial training report,
      (Recommender.ofConfig c).fit f (trainingSelection c cutoff)
        = (Recommender.ofConfig c).fitTables t ∧
      Trial.ofFrame f (evaluationSelection c cutoff) = .ok trial ∧
      t.Harvested f (trainingSelection c cutoff) (c.settings .shift) trial.tables training ∧
      trainOn c f cutoff = .ok report ∧
      report.recommender = ((Recommender.ofConfig c).fitTables t).state ∧
      report.recommender.evaluate trial.tables.userItems trial.holders (.rank evaluationRank)
        = .ok report.metrics ∧
      trial.Unseen report.recommender training ∧
      (day = none ∨ day = some "" → ∃ times mask,
        f.column (.text "unixReviewTime") = .ok times ∧
        (trainingSelection c cutoff).early f = .ok mask ∧
        ∀ (k : ℕ) u, times[k]? = some u → u.isNothing = false → mask[k]? = some true) := by
  obtain ⟨t, ht, hfit⟩ := Recommender.fit_of_done hf
  obtain ⟨tables, training, hharvested⟩ := Recommender.exists_harvested ht
  obtain ⟨⟨mask, hmask⟩, users, husers⟩ := Frame.exists_columns hharvested.ofFrame
  have huser := hharvested.deals.user_ne hpresent
  have hdone : ((Recommender.ofConfig c).fitTables t).fault = none := hfit ▸ hf
  obtain ⟨fitted, hfitted, -⟩ := Recommender.fitted_of_fitTables hdone
  let trial : Trial := ⟨tables, (heldOutByUser tables.heldOut).entries⟩
  have htrial : Trial.ofFrame f (evaluationSelection c cutoff) = .ok trial := by
    rw [evaluationSelection_eq]
    refine bind_eq_ok_iff.2 ⟨(), hharvested.check, bind_eq_ok_iff.2 ⟨tables, hharvested.ofFrame,
      bind_eq_ok_iff.2 ⟨users, husers, ?_⟩⟩⟩
    rw [holders_eq_entries users fun p hp => huser p (List.mem_append_right _ hp)]
    rfl
  obtain ⟨metrics, hmetrics⟩ :=
    Recommender.exists_evaluate hfitted tables.userItems trial.holders evaluationRank
  refine ⟨t, trial, training, ⟨((Recommender.ofConfig c).fitTables t).state, fitted, metrics⟩, hfit,
    htrial, hharvested, ?_, rfl, hmetrics,
    Trial.unseen_of_deals hharvested.deals huser rfl hfitted, fun hday => ?_⟩
  · rw [trainOn]
    simp only [hfit, hdone, hfitted]
    exact bind_eq_ok_iff.2 ⟨trial, htrial, bind_eq_ok_iff.2 ⟨metrics, hmetrics, rfl⟩⟩
  · obtain ⟨times, htimes, hbelow⟩ := bind_eq_ok_iff.1 hmask
    exact ⟨times, mask, htimes, hmask, fun k u hu hsome =>
      early_of_latest hday hcutoff hshown htimes hbelow hu hsome⟩

/-- Settings that hold out **most pairs**, and sweep once. -/
def Settings.withholding : Settings Float :=
  ((Settings.standard.set .factor (.integer 1)).set .iterations (.integer 1)).set .validationShare
    (.real 0.75)

/-- A log of four rows with a time, and **one without**. -/
def Frame.timed : Frame Float :=
  .ofColumns [("reviewerID", [.text "u", .text "u", .text "v", .text "w", .text "v"]),
    ("asin", [.text "a", .text "b", .text "c", .text "a", .text "b"]),
    ("unixReviewTime", [.real 1, .real 2.5, .absent, .real 4, .real (-3)])]

/-- Three pairs of the four are held out, and **only one user** is trained on. -/
theorem exists_withholding :
    ∃ c : Config Float, Config.ofSettings Settings.withholding = .ok c ∧
      ((Recommender.ofConfig c).fit .timed (trainingSelection c 5)).fault = none ∧
      (Trial.ofFrame .timed (evaluationSelection c 5)).map Trial.queries
        = .ok [(⟨.text "u", [.text "a"], 10⟩, [.text "b"]), (⟨.text "w", [], 10⟩, [.text "a"]),
          (⟨.text "v", [], 10⟩, [.text "b"])] := by
  obtain ⟨c, hc, h⟩ := exists_ok_of_any (x := Config.ofSettings Settings.withholding)
    (p := fun c => decide (
      ((Recommender.ofConfig c).fit .timed (trainingSelection c 5)).fault = none ∧
      (Trial.ofFrame .timed (evaluationSelection c 5)).map Trial.queries
        = .ok [(⟨.text "u", [.text "a"], 10⟩, [.text "b"]), (⟨.text "w", [], 10⟩, [.text "a"]),
          (⟨.text "v", [], 10⟩, [.text "b"])])) (by decide +kernel)
  exact ⟨c, hc, of_decide_eq_true h⟩

/-- A trial that asks for three users, **one of whom has a history**: the pair of an item that the
others are asked for, or the user is. The row with the latest time is kept. -/
theorem trial_is_unseen_withholding :
    ∃ (c : Config Float) (trial : Trial) (training : List (Key × Key))
      (report : TrainingReport Float),
      Config.ofSettings Settings.withholding = .ok c ∧
      (∀ users, Frame.timed.column (.text "reviewerID") = .ok users →
        ∀ u ∈ users, u.key ≠ .missing) ∧
      cutoffTime none Frame.timed = .ok 5 ∧ cutoffText 5 = .ok "1970-01-01 00:00:05 (unix=5)" ∧
      ((Recommender.ofConfig c).fit .timed (trainingSelection c 5)).fault = none ∧
      trainOn c .timed 5 = .ok report ∧
      trial.queries = [(⟨.text "u", [.text "a"], 10⟩, [.text "b"]),
        (⟨.text "w", [], 10⟩, [.text "a"]), (⟨.text "v", [], 10⟩, [.text "b"])] ∧
      trial.Unseen report.recommender training ∧
      ∃ mask, (trainingSelection c 5).early Frame.timed = .ok mask ∧ mask[3]? = some true := by
  obtain ⟨c, hc, hf, hqueries⟩ := exists_withholding
  have hpresent : ∀ users, Frame.timed.column (.text "reviewerID") = .ok users →
      ∀ u ∈ users, u.key ≠ .missing := by
    intro users husers
    obtain rfl := Except.ok.inj ((rfl : _ = Frame.timed.column (.text "reviewerID")).trans husers)
    decide
  have hcutoff : cutoffTime none Frame.timed = .ok 5 := by decide +kernel
  have hshown : cutoffText 5 = .ok "1970-01-01 00:00:05 (unix=5)" := by decide +kernel
  obtain ⟨t, trial, training, report, -, htrial, -, htrained, -, -, hunseen, hearly⟩ :=
    trial_is_unseen hpresent hcutoff hshown hf
  obtain ⟨times, mask, htimes, hmask, hkept⟩ := hearly (.inl rfl)
  rw [htrial] at hqueries
  refine ⟨c, trial, training, report, hc, hpresent, hcutoff, hshown, hf, htrained,
    Except.ok.inj hqueries, hunseen, mask, hmask, hkept 3 (.real 4) ?_ (by decide +kernel)⟩
  obtain rfl := Except.ok.inj ((rfl : _ = Frame.timed.column (.text "unixReviewTime")).trans htimes)
  rfl

/-! ### Scores of negative infinity -/

/-- Settings with which vectors **become so large** in two sweeps that an inner product of them
overflows. -/
def Settings.swelling : Settings Float
  | .factor => .integer 1
  | .unobserved => .integer 0
  | .observed => .real 1e-150
  | .ridgeTheta => .integer 0
  | .ridgeBeta => .integer 0
  | .ridgeGamma => .real 1e265
  | .globalBias => .real 1e119
  | .useBias => .flag false
  | .initialisation => .text "random"
  | .initialBound => .real 1e-45
  | .iterations => .integer 2
  | .metric => .text "objective"
  | .seed => .integer 7
  | p => Settings.standard p

/-- What a log of five pairs is divided into: three that **two users without a common item** are
trained on, and two that are held out. Two items are neighbours, by the logarithm of two. -/
def Training.apart : Training Float where
  userItems := Table.ofList [(.text "v", [.text "j", .text "b"]), (.text "u", [.text "m"])]
  itemUsers := Table.ofList
    [(.text "j", [.text "v"]), (.text "b", [.text "v"]), (.text "m", [.text "u"])]
  rows := Table.ofList [(.text "j", [(.text "b", 0.6931471805599453)]),
    (.text "b", [(.text "j", 0.6931471805599453)])]
  heldOut := [(.text "u", .text "x"), (.text "v", .text "m")]

/-- Of the items that one of the users does not know **one has an ordinary score**, and the other
scores negative infinity. -/
theorem exists_swelling :
    ∃ c : Config Float, Config.ofSettings Settings.swelling = .ok c ∧
      ((Recommender.ofConfig c).fitTables Training.apart).fault = none ∧
      ∃ f ∈ ((Recommender.ofConfig c).fitTables Training.apart).state.fitted,
        f.available [.text "m"] = 2 ∧ ∃ v ∈ f.profile (.text "u") [.text "m"],
          (f.masked v [.text "m"]).map (fun e => (e.1, e.2.map Scalar.exceptional?))
            = [(.text "j", some none), (.text "b", some (some .negativeInfinity)),
              (.text "m", none)] := by
  obtain ⟨c, hc, h⟩ := exists_ok_of_any (x := Config.ofSettings Settings.swelling)
    (p := fun c => decide (((Recommender.ofConfig c).fitTables Training.apart).fault = none ∧
      ∃ f ∈ ((Recommender.ofConfig c).fitTables Training.apart).state.fitted,
        f.available [.text "m"] = 2 ∧ ∃ v ∈ f.profile (.text "u") [.text "m"],
          (f.masked v [.text "m"]).map (fun e => (e.1, e.2.map Scalar.exceptional?))
            = [(.text "j", some none), (.text "b", some (some .negativeInfinity)),
              (.text "m", none)])) (by decide +kernel)
  exact ⟨c, hc, of_decide_eq_true h⟩

/-- So a recommender suggests to a user with a held-out item **what it has been trained with**,
though that is in the history it is given. -/
theorem mem_history_of_inaudible :
    ∃ c : Config Float, Config.ofSettings Settings.swelling = .ok c ∧
      ((Recommender.ofConfig c).fitTables Training.apart).fault = none ∧
      (.text "u", .text "x") ∈ Training.apart.heldOut ∧
      Training.apart.userItems.get? (.text "u") = some [.text "m"] ∧
      ((Recommender.ofConfig c).fitTables Training.apart).state.recommend (.text "u") [.text "m"]
        (.integer 10) = .ok [.text "j", .text "m"] := by
  obtain ⟨c, hc, hdone, f, hf, hroom, v, hv, hmasked⟩ := exists_swelling
  refine ⟨c, hc, hdone, List.mem_cons_self, rfl, ?_⟩
  have hanswer : f.recommend (.text "u") [.text "m"] 10 = [.text "j", .text "m"] := by
    rw [Fitted.recommend, hv, hroom]
    dsimp only
    rw [List.map_take, Fitted.ranked_of_inaudible hmasked]
    rfl
  rw [Recommender.recommend, hf]
  dsimp only
  rw [hv]
  exact congrArg Except.ok hanswer

end CoEmbed
