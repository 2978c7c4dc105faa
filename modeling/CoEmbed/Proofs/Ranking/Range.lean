import CoEmbed.Proofs.Outcome
import CoEmbed.Proofs.Ranking.Gain
import CoEmbed.Proofs.Ranking.Rounded

/-!
# The Range of the Metrics

Precision, recall and hits compare sets of keys, and lie between zero and one whatever is
recommended. The relative gain counts ranks: it can be above one, but only if a held-out key is
recommended twice.

* `precisionAt_mem`, `recallAt_mem`, `ndcgAt_nonneg` — any ranking.
* `ndcgAt_le_one` — rankings that recommend no held-out key twice.
* `answers`, `Scalar.mean`, `evaluateTopK_eq` — the metrics of a recommender are means over what it
  answers.
* `average`, `evaluateTopK_real` — in exact arithmetic they are averages.
* `InUnit`, `inUnit_mean` — the range in floating point.
* `metrics_in_range` — the range of the metrics.

## Average convention

The average of nothing is zero.
-/

namespace CoEmbed

/-! ### One ranking -/

section

variable {recommended heldOut : List Key} {k : ℤ}

/-- Precision lies **between zero and one**. -/
theorem precisionAt_mem (hk : 0 ≤ k) :
    (precisionAt recommended heldOut k : ℝ) ∈ Set.Icc 0 1 := by
  rw [precisionAt]
  split
  · exact ⟨le_rfl, zero_le_one⟩
  · have hcutoff : (0 : ℝ) ≤ k := Int.cast_nonneg hk
    have hhits : (hits recommended heldOut k : ℝ) ≤ k := by exact_mod_cast hits_le_cutoff hk
    rw [Scalar.quotient_real, Int.cast_natCast]
    exact ⟨div_nonneg (Nat.cast_nonneg _) hcutoff, div_le_one_of_le₀ hhits hcutoff⟩

/-- Recall lies **between zero and one**, at any cut-off. -/
theorem recallAt_mem : (recallAt recommended heldOut k : ℝ) ∈ Set.Icc 0 1 := by
  rw [recallAt]
  split
  · exact ⟨le_rfl, zero_le_one⟩
  · have hhits : (hits recommended heldOut k : ℝ) ≤ heldOut.length :=
      Nat.cast_le.2 hits_le_length
    rw [Scalar.quotient_real, Int.cast_natCast, Int.cast_natCast]
    exact ⟨div_nonneg (Nat.cast_nonneg _) (Nat.cast_nonneg _),
      div_le_one_of_le₀ hhits (Nat.cast_nonneg _)⟩

/-- The relative gain is **not negative**. -/
theorem ndcgAt_nonneg (hk : 0 ≤ k) : 0 ≤ (ndcgAt recommended heldOut k : ℝ) := by
  obtain ⟨n, rfl⟩ := Int.eq_ofNat_of_zero_le hk
  have hsum : ∀ S : Finset ℕ, 0 ≤ ∑ rank ∈ S, (discount rank : ℝ) := fun S =>
    Finset.sum_nonneg fun rank _ => (discount_pos rank).le
  rw [ndcgAt_eq]
  exact div_nonneg (hsum _) (hsum _)

end

/-- There are no more hits than **ranks that can be hit**. -/
theorem HitsOnce.card_le {recommended heldOut : List Key} {n : ℕ}
    (h : HitsOnce recommended heldOut n) :
    (hitRanks recommended heldOut n).card ≤ min (distinct heldOut).length n := by
  rw [HitsOnce, upTo_natCast] at h
  exact le_min (card_hitRanks_le_distinct h) (card_hitRanks_le recommended heldOut n)

/-- The relative gain is **at most one** if no held-out key is recommended twice. -/
theorem ndcgAt_le_one {recommended heldOut : List Key} {k : ℤ} (hk : 0 ≤ k)
    (h : HitsOnce recommended heldOut k) : (ndcgAt recommended heldOut k : ℝ) ≤ 1 := by
  obtain ⟨n, rfl⟩ := Int.eq_ofNat_of_zero_le hk
  rw [ndcgAt_eq]
  refine div_le_one_of_le₀ (sum_le_sum_range strictAnti_discount discount_pos h.card_le) ?_
  exact Finset.sum_nonneg fun rank _ => (discount_pos rank).le

/-! ### Averages -/

/-- What a recommender **answers**, beside the keys that are held out. -/
def answers (recommend : Query → Except Fault (List Key)) (queries : List (Query × List Key)) :
    Except Fault (List (List Key × List Key)) :=
  queries.mapM fun q => (recommend q.1).map fun recommended => (recommended, q.2)

/-- The **average** of some numbers. -/
noncomputable def average (xs : List ℝ) : ℝ := xs.sum / xs.length

/-- The average of numbers that are not negative is **not negative**. -/
theorem average_nonneg {xs : List ℝ} (h : ∀ x ∈ xs, 0 ≤ x) : 0 ≤ average xs :=
  div_nonneg (List.sum_nonneg h) (Nat.cast_nonneg _)

/-- The average of numbers that are at most one is **at most one**. -/
theorem average_le_one {xs : List ℝ} (h : ∀ x ∈ xs, x ≤ 1) : average xs ≤ 1 := by
  refine div_le_one_of_le₀ ?_ (Nat.cast_nonneg _)
  have hsum := List.sum_le_card_nsmul xs 1 h
  rwa [nsmul_one] at hsum

/-- The average of numbers **between zero and one** lies there. -/
theorem average_mem {xs : List ℝ} (h : ∀ x ∈ xs, x ∈ Set.Icc (0 : ℝ) 1) :
    average xs ∈ Set.Icc 0 1 :=
  ⟨average_nonneg fun x hx => (h x hx).1, average_le_one fun x hx => (h x hx).2⟩

/-- The totals of some answers are the **running sums of their metrics**. -/
theorem TopK.foldl_add {α : Type} [Scalar α] (k : ℤ) (as : List (List Key × List Key))
    (t : TopK α) :
    as.foldl (fun t a => t.add a.1 a.2 k) t
      = ⟨(as.map fun a => precisionAt a.1 a.2 k).foldl (· + ·) t.meanPrecision,
          (as.map fun a => recallAt a.1 a.2 k).foldl (· + ·) t.meanRecall,
          (as.map fun a => Scalar.ofNat (hitAt a.1 a.2 k)).foldl (· + ·) t.meanHit,
          (as.map fun a => ndcgAt a.1 a.2 k).foldl (· + ·) t.meanNdcg, t.users + as.length⟩ := by
  induction as generalizing t with
  | nil => rfl
  | cons a as ih =>
      rw [List.foldl_cons, ih]
      simp only [TopK.add, List.map_cons, List.foldl_cons, List.length_cons, add_assoc, add_comm 1]

/-- The **mean** of some numbers: of no numbers it is zero. -/
def Scalar.mean {α : Type} [Scalar α] (xs : List α) : α :=
  if xs.length = 0 then 0 else xs.foldl (· + ·) 0 / Scalar.ofNat xs.length

/-- The mean of reals is **their average**. -/
theorem Scalar.mean_real (xs : List ℝ) : Scalar.mean xs = average xs := by
  rw [Scalar.mean, average, Scalar.ofNat_real, ← List.sum_eq_foldl]
  split
  · next h => rw [h, Nat.cast_zero, div_zero]
  · rfl

/-- The metrics of a recommender are **means over what it answers**. -/
theorem evaluateTopK_eq {α : Type} [Scalar α] (recommend : Query → Except Fault (List Key))
    (histories : Table Key (List Key)) (heldOut : List (Key × List Key)) (k : ℤ) :
    (evaluateTopK recommend histories heldOut k : Except Fault (TopK α))
      = (answers recommend (queries histories heldOut k)).map fun as =>
        ⟨Scalar.mean (as.map fun a => precisionAt a.1 a.2 k),
          Scalar.mean (as.map fun a => recallAt a.1 a.2 k),
          Scalar.mean (as.map fun a => Scalar.ofNat (hitAt a.1 a.2 k)),
          Scalar.mean (as.map fun a => ndcgAt a.1 a.2 k), as.length⟩ := by
  have hstep : (fun (t : TopK α) (q : Query × List Key) =>
      (recommend q.1).map fun recommended => t.add recommended q.2 k)
      = fun t q => ((recommend q.1).map fun recommended => (recommended, q.2)).map
        fun a => t.add a.1 a.2 k := by
    funext t q
    cases recommend q.1 <;> rfl
  rw [evaluateTopK]
  simp only [hstep]
  rw [foldlM_map_eq]
  change ((answers recommend (queries histories heldOut k)).map fun as =>
    as.foldl (fun (t : TopK α) a => t.add a.1 a.2 k) TopK.none).map TopK.mean = _
  cases answers recommend (queries histories heldOut k) with
  | error fault => rfl
  | ok as =>
      refine congrArg Except.ok ?_
      dsimp only
      rw [TopK.foldl_add]
      simp only [TopK.none, TopK.mean, Scalar.mean, zero_add, List.length_map]

/-- In exact arithmetic the metrics of a recommender are **averages over what it answers**. -/
theorem evaluateTopK_real (recommend : Query → Except Fault (List Key))
    (histories : Table Key (List Key)) (heldOut : List (Key × List Key)) (k : ℤ) :
    (evaluateTopK recommend histories heldOut k : Except Fault (TopK ℝ))
      = (answers recommend (queries histories heldOut k)).map fun as =>
        ⟨average (as.map fun a => precisionAt a.1 a.2 k),
          average (as.map fun a => recallAt a.1 a.2 k),
          average (as.map fun a => (hitAt a.1 a.2 k : ℝ)),
          average (as.map fun a => ndcgAt a.1 a.2 k), as.length⟩ := by
  simp only [evaluateTopK_eq, Scalar.mean_real, Scalar.ofNat_real]

/-- A recommender that can answer each query **can answer them all**. -/
theorem exists_answers {recommend : Query → Except Fault (List Key)}
    {queries : List (Query × List Key)}
    (h : ∀ q ∈ queries, ∃ recommended, recommend q.1 = .ok recommended) :
    ∃ as, answers recommend queries = .ok as := by
  refine exists_mapM fun q hq => ?_
  obtain ⟨recommended, hrecommended⟩ := h q hq
  exact ⟨(recommended, q.2), by rw [hrecommended]; rfl⟩

/-- There is **one answer for each query**. -/
theorem length_answers {recommend : Query → Except Fault (List Key)}
    {queries : List (Query × List Key)} {as : List (List Key × List Key)}
    (h : answers recommend queries = .ok as) : as.length = queries.length :=
  (getElem?_of_mapM h).1

/-- An answer is **what a query was answered with**. -/
theorem exists_of_mem_answers {recommend : Query → Except Fault (List Key)}
    {queries : List (Query × List Key)} {as : List (List Key × List Key)}
    (h : answers recommend queries = .ok as) {a : List Key × List Key} (ha : a ∈ as) :
    ∃ q ∈ queries, recommend q.1 = .ok a.1 ∧ q.2 = a.2 := by
  obtain ⟨q, hq, hanswer⟩ := exists_of_mem_mapM h ha
  cases hrecommended : recommend q.1 with
  | error fault =>
      rw [hrecommended] at hanswer
      cases hanswer
  | ok recommended =>
      rw [hrecommended] at hanswer
      obtain rfl : (recommended, q.2) = a := Except.ok.inj hanswer
      exact ⟨q, hq, hrecommended, rfl⟩

/-! ### Floating point -/

namespace Floating

/-- A floating point number **between zero and one**. -/
def InUnit (x : Float) : Prop := Scalar.le 0 x = true ∧ Scalar.le x 1 = true

theorem At.inUnit {x : Float} {r : ℝ} (h : At x r) (hr : r ≤ 1) : InUnit x :=
  ⟨(at_zero.le_iff h).2 h.nonneg, (h.le_iff at_one).2 hr⟩

theorem exists_at_precisionAt (recommended heldOut : List Key) {k : ℤ} (hk : 1 ≤ k) :
    ∃ r ≤ 1, At (precisionAt recommended heldOut k) r := by
  obtain ⟨n, rfl⟩ := Int.eq_ofNat_of_zero_le (zero_le_one.trans hk)
  exact ⟨_, nearest_div_le_one (Int.ofNat_le.1 (hits_le_cutoff (Int.natCast_nonneg n))),
    at_precisionAt recommended heldOut (Int.natCast_pos.1 hk)⟩

theorem exists_at_recallAt (recommended heldOut : List Key) (k : ℤ) :
    ∃ r ≤ 1, At (recallAt recommended heldOut k) r :=
  ⟨_, nearest_div_le_one hits_le_length, at_recallAt recommended heldOut k⟩

theorem exists_at_hitAt (recommended heldOut : List Key) (k : ℤ) :
    ∃ r ≤ 1, At (Scalar.ofNat (hitAt recommended heldOut k)) r :=
  ⟨hitAt recommended heldOut k, by exact_mod_cast hitAt_le_one,
    at_ofNat_of_lt (hitAt_le_one.trans_lt (by norm_num))⟩

/-- The relative gain of **what a query is answered with** can be told, if no list is too long. -/
theorem exists_at_ndcgAt_of_answers {log2 : Float → Float} {m n : ℕ}
    (hlog : Log2Sound log2 (m + 1)) (hm : m + 1 < 2 ^ 53) (hn : 0 < n)
    {recommend : Query → Except Fault (List Key)} {queries : List (Query × List Key)}
    {as : List (List Key × List Key)} (has : answers recommend queries = .ok as)
    (hlength : ∀ q ∈ queries, q.2.length ≤ m ∧
      ∃ recommended, recommend q.1 = .ok recommended ∧ recommended.length ≤ m) :
    ∀ a ∈ as, ∃ r ≤ 2 ^ 106, At (@ndcgAt Float (Scalar.floating log2) a.1 a.2 n) r ∧
      (HitsOnce a.1 a.2 n → r ≤ 1) := by
  intro a ha
  obtain ⟨q, hq, hrecommended, hheld⟩ := exists_of_mem_answers has ha
  obtain ⟨hshort, recommended, hrecommended', hshort'⟩ := hlength q hq
  obtain rfl : a.1 = recommended := Except.ok.inj (hrecommended.symm.trans hrecommended')
  obtain ⟨r, hr, hat, -, hone⟩ := at_ndcgAt hlog hm hshort' (hheld ▸ hshort) hn
  exact ⟨r, hr, hat, hone⟩

/-- The mean of numbers between zero and one **lies there**. -/
theorem inUnit_mean {xs : List Float} (hxs : ∀ x ∈ xs, ∃ r ≤ 1, At x r)
    (hlength : xs.length < 2 ^ 53) : InUnit (Scalar.mean xs) := by
  have hunits : ∀ x ∈ xs, ∃ r ≤ 2 ^ 0, At x r := by simpa only [pow_zero] using hxs
  obtain ⟨r, hr, hat⟩ := at_mean (Nat.zero_le 900) hunits hlength
  exact hat.inUnit (by rwa [pow_zero] at hr)

end Floating

/-! ### The range -/

open Floating (At Log2Sound InUnit)

/-- **Precision, recall and hits lie between zero and one; the relative gain is at least zero, and
at most one where no held-out key is recommended twice.** This is so for every ranking and all
held-out keys, repeated ones included, and every cut-off from one on. So it is for the means: a
recommender that answers every query has some, those of precision, recall and hits lie between zero
and one, and that of the relative gain does if no answer has a held-out key twice.

Rounding changes none of this. In floating point it is so with every logarithm that is sound for the
ranks there are, as long as lists and users can be counted. -/
theorem metrics_in_range {k : ℤ} (hk : 1 ≤ k) :
    (∀ recommended heldOut : List Key,
      (precisionAt recommended heldOut k : ℝ) ∈ Set.Icc 0 1 ∧
        (recallAt recommended heldOut k : ℝ) ∈ Set.Icc 0 1 ∧ hitAt recommended heldOut k ≤ 1 ∧
        0 ≤ (ndcgAt recommended heldOut k : ℝ) ∧
        (HitsOnce recommended heldOut k → (ndcgAt recommended heldOut k : ℝ) ≤ 1)) ∧
    (∀ (recommend : Query → Except Fault (List Key)) (histories : Table Key (List Key))
      (heldOut : List (Key × List Key)),
      (∀ q ∈ queries histories heldOut k, ∃ recommended, recommend q.1 = .ok recommended) →
      ∃ t : TopK ℝ, evaluateTopK recommend histories heldOut k = .ok t ∧
        t.meanPrecision ∈ Set.Icc 0 1 ∧ t.meanRecall ∈ Set.Icc 0 1 ∧ t.meanHit ∈ Set.Icc 0 1 ∧
        0 ≤ t.meanNdcg ∧
        ((∀ q ∈ queries histories heldOut k, ∀ recommended, recommend q.1 = .ok recommended →
          HitsOnce recommended q.2 k) → t.meanNdcg ≤ 1)) ∧
    (∀ recommended heldOut : List Key,
      InUnit (precisionAt recommended heldOut k) ∧ InUnit (recallAt recommended heldOut k)) ∧
    ∀ (log2 : Float → Float) (m : ℕ), Log2Sound log2 (m + 1) → m + 1 < 2 ^ 53 →
      let _ := Scalar.floating log2
      (∀ recommended heldOut : List Key, recommended.length ≤ m → heldOut.length ≤ m →
        Scalar.le 0 (ndcgAt recommended heldOut k : Float) = true ∧
        (HitsOnce recommended heldOut k → InUnit (ndcgAt recommended heldOut k))) ∧
      ∀ (recommend : Query → Except Fault (List Key)) (histories : Table Key (List Key))
        (heldOut : List (Key × List Key)),
        (queries histories heldOut k).length < 2 ^ 53 →
        (∀ q ∈ queries histories heldOut k, q.2.length ≤ m ∧
          ∃ recommended, recommend q.1 = .ok recommended ∧ recommended.length ≤ m) →
        ∃ t : TopK Float, evaluateTopK recommend histories heldOut k = .ok t ∧
          InUnit t.meanPrecision ∧ InUnit t.meanRecall ∧ InUnit t.meanHit ∧
          Scalar.le 0 t.meanNdcg = true ∧
          ((∀ q ∈ queries histories heldOut k, ∀ recommended, recommend q.1 = .ok recommended →
            HitsOnce recommended q.2 k) → InUnit t.meanNdcg) := by
  have hk' : 0 ≤ k := zero_le_one.trans hk
  refine ⟨fun recommended heldOut => ⟨precisionAt_mem hk', recallAt_mem, hitAt_le_one,
    ndcgAt_nonneg hk', ndcgAt_le_one hk'⟩, fun recommend histories heldOut hanswered => ?_,
    fun recommended heldOut => ?_,
    fun log2 m hlog hm => ⟨fun recommended heldOut hrecommended hheld => ?_,
      fun recommend histories heldOut husers hanswered => ?_⟩⟩
  · obtain ⟨as, has⟩ := exists_answers hanswered
    refine ⟨_, (evaluateTopK_real recommend histories heldOut k).trans (congrArg _ has),
      average_mem ?_, average_mem ?_, average_mem ?_, average_nonneg ?_,
      fun honce => average_le_one ?_⟩
    all_goals
      intro x hx
      obtain ⟨a, ha, rfl⟩ := List.mem_map.1 hx
    · exact precisionAt_mem hk'
    · exact recallAt_mem
    · exact ⟨Nat.cast_nonneg _, by exact_mod_cast hitAt_le_one⟩
    · exact ndcgAt_nonneg hk'
    · obtain ⟨q, hq, hrecommended, hheld⟩ := exists_of_mem_answers has ha
      exact ndcgAt_le_one hk' (hheld ▸ honce q hq a.1 hrecommended)
  · obtain ⟨p, hp, hprecision⟩ := Floating.exists_at_precisionAt recommended heldOut hk
    obtain ⟨r, hr, hrecall⟩ := Floating.exists_at_recallAt recommended heldOut k
    exact ⟨hprecision.inUnit hp, hrecall.inUnit hr⟩
  · obtain ⟨n, rfl⟩ := Int.eq_ofNat_of_zero_le hk'
    obtain ⟨r, -, hndcg, -, hone⟩ :=
      Floating.at_ndcgAt hlog hm hrecommended hheld (Int.natCast_pos.1 hk)
    exact ⟨(Floating.at_zero.le_iff hndcg).2 hndcg.nonneg, fun honce => hndcg.inUnit (hone honce)⟩
  · obtain ⟨n, rfl⟩ := Int.eq_ofNat_of_zero_le hk'
    obtain ⟨as, has⟩ := exists_answers fun q hq =>
      let ⟨recommended, hrecommended, _⟩ := (hanswered q hq).2
      ⟨recommended, hrecommended⟩
    have hcount : as.length < 2 ^ 53 := by rwa [length_answers has]
    have hndcg := Floating.exists_at_ndcgAt_of_answers hlog hm (Int.natCast_pos.1 hk) has hanswered
    have hmap : ∀ f : List Key × List Key → Float, (as.map f).length < 2 ^ 53 := fun f => by
      rwa [List.length_map]
    refine ⟨_, (@evaluateTopK_eq Float (Scalar.floating log2) recommend histories heldOut n).trans
      (congrArg _ has), Floating.inUnit_mean ?_ (hmap _), Floating.inUnit_mean ?_ (hmap _),
      Floating.inUnit_mean ?_ (hmap _), ?_, fun honce => Floating.inUnit_mean ?_ (hmap _)⟩
    · exact List.forall_mem_map.2 fun a _ => Floating.exists_at_precisionAt a.1 a.2 hk
    · exact List.forall_mem_map.2 fun a _ => Floating.exists_at_recallAt a.1 a.2 n
    · exact List.forall_mem_map.2 fun a _ => Floating.exists_at_hitAt a.1 a.2 n
    · obtain ⟨r, -, hmean⟩ := Floating.at_mean (j := 106) (by decide)
        (List.forall_mem_map.2 fun a ha => (hndcg a ha).imp fun r hr => ⟨hr.1, hr.2.1⟩) (hmap _)
      exact (Floating.at_zero.le_iff hmean).2 hmean.nonneg
    · refine List.forall_mem_map.2 fun a ha => ?_
      obtain ⟨r, -, hat, hone⟩ := hndcg a ha
      obtain ⟨q, hq, hrecommended, hheld⟩ := exists_of_mem_answers has ha
      exact ⟨r, hone (hheld ▸ honce q hq a.1 hrecommended), hat⟩

/-- Logarithms to base two of **two, three and four**. -/
def Floating.firstLogarithms (x : Float) : Float :=
  if Scalar.le x 2 then 1 else if Scalar.le x 3 then 1.584962500721156 else 2

/-- Two users are recommended the same, and one of them finds a key. The first has a key held out
twice, which is recommended twice, but once up to the cut-off. -/
theorem metrics_in_range_two_users :
    let ranking : List Key := [.text "a", .text "b", .text "b"]
    let heldOut : List (Key × List Key) :=
      [(.text "u", [.text "b", .text "b"]), (.text "v", [.text "c"])]
    (1 : ℤ) ≤ 2 ∧ (ndcgAt ranking [.text "b", .text "b"] 2 : ℝ) ≤ 1 ∧
      (∃ t : TopK ℝ, evaluateTopK (fun _ => .ok ranking) Table.empty heldOut 2 = .ok t ∧
        t.meanPrecision ∈ Set.Icc 0 1 ∧ t.meanRecall ∈ Set.Icc 0 1 ∧ t.meanHit ∈ Set.Icc 0 1 ∧
        0 ≤ t.meanNdcg ∧ t.meanNdcg ≤ 1) ∧
      Log2Sound Floating.firstLogarithms 4 ∧
      ∃ t : TopK Float, @evaluateTopK Float (Scalar.floating Floating.firstLogarithms)
        (fun _ => .ok ranking) Table.empty heldOut 2 = .ok t ∧
        InUnit t.meanPrecision ∧ InUnit t.meanRecall ∧ InUnit t.meanHit ∧ InUnit t.meanNdcg := by
  intro ranking heldOut
  have honce : ∀ q ∈ queries Table.empty heldOut 2, ∀ recommended,
      .ok ranking = (.ok recommended : Except Fault _) → HitsOnce recommended q.2 2 := by
    rintro q hq recommended ⟨⟩
    revert q
    unfold HitsOnce
    decide
  obtain ⟨hone, hmeans, -, hfloat⟩ := metrics_in_range (k := 2) (by decide)
  refine ⟨by decide, (hone ranking [.text "b", .text "b"]).2.2.2.2
    (honce _ List.mem_cons_self _ rfl), ?_, ?_⟩
  · obtain ⟨t, ht, hprecision, hrecall, hhit, hnonneg, hle⟩ :=
      hmeans (fun _ => .ok ranking) Table.empty heldOut fun q _ => ⟨ranking, rfl⟩
    exact ⟨t, ht, hprecision, hrecall, hhit, hnonneg, hle honce⟩
  · have hsound : Log2Sound Floating.firstLogarithms 4 :=
      ⟨by decide +kernel, by decide +kernel, by decide +kernel⟩
    obtain ⟨t, ht, hprecision, hrecall, hhit, -, hle⟩ :=
      (hfloat Floating.firstLogarithms 3 hsound (by decide)).2 (fun _ => .ok ranking) Table.empty
        heldOut (by decide) fun q hq => ⟨by revert q; decide, ranking, rfl, le_rfl⟩
    exact ⟨hsound, t, ht, hprecision, hrecall, hhit, hle honce⟩

/-- A held-out key that is recommended twice counts at both of its ranks, and the relative gain is
**above one**, and so is its mean. -/
theorem one_lt_ndcgAt_of_repeated :
    let ranking : List Key := [.text "a", .text "a"]
    1 < (ndcgAt ranking [.text "a"] 2 : ℝ) ∧
      ∃ t : TopK ℝ, evaluateTopK (fun _ => .ok ranking) Table.empty [(.text "u", [.text "a"])] 2
        = .ok t ∧ 1 < t.meanNdcg := by
  intro ranking
  have hranks : hitRanks ranking [.text "a"] 2 = Finset.range 2 := by decide
  have hbest : min (distinct [Key.text "a"]).length 2 = 1 := by decide
  have hlt : 1 < (ndcgAt ranking [.text "a"] 2 : ℝ) := by
    have hndcg := ndcgAt_eq ranking [.text "a"] 2
    rw [hranks, hbest, Finset.sum_range_succ, Finset.sum_range_one] at hndcg
    refine lt_of_lt_of_eq ?_ hndcg.symm
    rw [one_lt_div (discount_pos 0)]
    exact lt_add_of_pos_right _ (discount_pos 1)
  refine ⟨hlt, _, evaluateTopK_real _ _ _ _, ?_⟩
  change 1 < average [ndcgAt ranking [.text "a"] 2]
  rwa [average, List.sum_singleton, List.length_singleton, Nat.cast_one, div_one]

end CoEmbed
