import CoEmbed.Proofs.Exact.Setting
import CoEmbed.Proofs.Outcome
import CoEmbed.Proofs.Table
import CoEmbed.Sppmi

/-!
# Neighbours by Counting

In exact arithmetic the rows of weighted neighbours are given by counts of users alone: how many
have both items of a pair, and how many pairs there are in all.

* `commonUsers`, `partners`, `pairs` — the counts.
* `Related`, `association` — which items are neighbours, and with what weight.
* `cooccurrence_eq` — the matrix of counts.
* `Associates`, `sppmi_cooccurrence` — the matrix of weights.
* `rowsOfMatrix_eq_ok`, `mem_storedRow` — the rows that a matrix holds.
* `sppmiRows_eq_ok` — the rows that interactions lead to.

## Shift convention

The shift is whatever a logarithm can be taken of; a whole number has to fit into a word for
that.
-/

namespace CoEmbed

open Finset

variable {m : ℕ}

/-! ### Counts -/

section

variable (users : List (Vec ℝ m))

/-- The number of users who have **both items**. -/
noncomputable def commonUsers (i j : Fin m) : ℕ :=
  users.countP fun u => decide ((0 : ℝ) < u.entry i ∧ (0 : ℝ) < u.entry j)

/-- The number of users that an item has in common with **any other** item. -/
noncomputable def partners (i : Fin m) : ℕ := ∑ j ∈ univ.erase i, commonUsers users i j

/-- The number of users that **any two** different items have in common. -/
noncomputable def pairs : ℕ := ∑ i, partners users i

/-- Two different items that more users have **than chance would have it**, times the shift. -/
def Related (s : ℝ) (i j : Fin m) : Prop :=
  j ≠ i ∧ s * (partners users i * partners users j) < commonUsers users i j * pairs users

/-- The weight of a pair: how far it is **above chance**, on a logarithmic scale. -/
noncomputable def association (s : ℝ) (i j : Fin m) : ℝ :=
  Real.log (commonUsers users i j * pairs users / (partners users i * partners users j))
    - Real.log s

theorem commonUsers_comm (i j : Fin m) : commonUsers users i j = commonUsers users j i := by
  simp only [commonUsers, and_comm]

theorem related_comm (s : ℝ) {i j : Fin m} : Related users s i j ↔ Related users s j i := by
  rw [Related, Related, commonUsers_comm users i j, mul_comm (partners users i : ℝ), ne_comm]

theorem association_comm (s : ℝ) (i j : Fin m) :
    association users s i j = association users s j i := by
  rw [association, association, commonUsers_comm users i j, mul_comm (partners users i : ℝ)]

theorem commonUsers_le_partners {i j : Fin m} (h : j ≠ i) :
    commonUsers users i j ≤ partners users i :=
  single_le_sum (fun _ _ => Nat.zero_le _) (mem_erase.2 ⟨h, mem_univ j⟩)

theorem partners_le_pairs (i : Fin m) : partners users i ≤ pairs users :=
  single_le_sum (fun _ _ => Nat.zero_le _) (mem_univ i)

/-- A pair that some user has is **counted everywhere**. -/
theorem counts_pos {i j : Fin m} (h : j ≠ i) (hpos : 0 < commonUsers users i j) :
    (0 : ℝ) < commonUsers users i j ∧ (0 : ℝ) < partners users i ∧ (0 : ℝ) < partners users j ∧
      (0 : ℝ) < pairs users := by
  have hi : 0 < partners users i := hpos.trans_le (commonUsers_le_partners users h)
  have hj : 0 < partners users j := by
    rw [commonUsers_comm] at hpos
    exact hpos.trans_le (commonUsers_le_partners users h.symm)
  have hall : 0 < pairs users := hi.trans_le (partners_le_pairs users i)
  exact ⟨Nat.cast_pos.2 hpos, Nat.cast_pos.2 hi, Nat.cast_pos.2 hj, Nat.cast_pos.2 hall⟩

/-- Items that **nobody has together** are not related. -/
theorem Related.commonUsers_pos {s : ℝ} (hs : 0 < s) {i j : Fin m} (h : Related users s i j) :
    0 < commonUsers users i j := by
  refine Nat.pos_of_ne_zero fun hzero => ?_
  have hbelow := h.2
  rw [hzero, Nat.cast_zero, zero_mul] at hbelow
  exact absurd hbelow (not_lt.2 (by positivity))

/-- Of the items that somebody has together, those are related whose weight is **positive**. -/
theorem related_iff_association_pos {s : ℝ} (hs : 0 < s) {i j : Fin m} (h : j ≠ i)
    (hpos : 0 < commonUsers users i j) :
    Related users s i j ↔ 0 < association users s i j := by
  obtain ⟨hij, hi, hj, hall⟩ := counts_pos users h hpos
  have hquotient : 0 < commonUsers users i j * pairs users
      / (partners users i * partners users j : ℝ) := by positivity
  rw [association, sub_pos, Real.log_lt_log_iff hs hquotient, lt_div_iff₀ (mul_pos hi hj),
    Related, and_iff_right h]

/-- Related items are **above chance**. -/
theorem Related.association_pos {s : ℝ} (hs : 0 < s) {i j : Fin m} (h : Related users s i j) :
    0 < association users s i j :=
  (related_iff_association_pos users hs h.1 (h.commonUsers_pos users hs)).1 h

end

/-! ### Matrices -/

section

variable (users : List (Vec ℝ m))

/-- A user adds one to a pair, or nothing. -/
theorem positives_mul (u : Vec ℝ m) (i j : Fin m) :
    (positives u).entry i * (positives u).entry j
      = if (0 : ℝ) < u.entry i ∧ (0 : ℝ) < u.entry j then 1 else 0 := by
  have hentry : ∀ k : Fin m,
      (positives u).entry k = if (0 : ℝ) < u.entry k then 1 else 0 := by
    intro k
    rw [positives, Vec.entry_eq, Fin.getElem_fin, Vector.getElem_ofFn]
    exact if_congr Scalar.lt_real rfl rfl
  rw [hentry, hentry, ite_zero_mul_ite_zero, one_mul]

/-- The Gram matrix **counts users**. -/
theorem gram_positives (i j : Fin m) :
    (Mat.gram (users.map positives)).entry i j = (commonUsers users i j : ℝ) := by
  rw [Mat.entry_eq, Fin.getElem_fin, Fin.getElem_fin, Mat.getElem_gram,
    Scalar.foldl_add_eq_add_sum, zero_add, List.map_map, commonUsers]
  induction users with
  | nil => exact Nat.cast_zero.symm
  | cons u users ih =>
      rw [List.map_cons, List.sum_cons, ih, List.countP_cons, Nat.cast_add, add_comm,
        Function.comp_apply]
      congr 1
      refine (positives_mul u i j).trans ?_
      simp only [decide_eq_true_eq, Nat.cast_ite, Nat.cast_one, Nat.cast_zero]

/-- The entries of the matrix of counts are **the counts**. -/
theorem cooccurrence_eq (i j : Fin m) :
    (cooccurrence users).entry i j = if i = j then 0 else (commonUsers users i j : ℝ) := by
  rw [cooccurrence, offDiagonal, Mat.entry_eq, Fin.getElem_fin, Fin.getElem_fin, Mat.getElem_ofFn]
  by_cases h : i = j
  · rw [if_pos h, if_pos h]
    exact sub_self _
  · rw [if_neg h, if_neg h]
    exact (sub_zero _).trans (gram_positives users i j)

theorem rowSum_cooccurrence (i : Fin m) :
    rowSum (cooccurrence users) i = (partners users i : ℝ) := by
  have hself : (cooccurrence users).entry i i = 0 := by rw [cooccurrence_eq, if_pos rfl]
  rw [rowSum, Scalar.sum_real, partners, Nat.cast_sum, ← sum_erase univ hself]
  refine sum_congr rfl fun j hj => ?_
  rw [cooccurrence_eq, if_neg (ne_of_mem_erase hj).symm]

theorem entrySum_cooccurrence : entrySum (cooccurrence users) = (pairs users : ℝ) := by
  rw [entrySum, Scalar.sum_real, pairs, Nat.cast_sum]
  exact sum_congr rfl fun i _ => rowSum_cooccurrence users i

theorem columnCount_rowSum (j : Fin m) :
    columnCount (Vector.ofFn (rowSum (cooccurrence users))) j.val = (partners users j : ℝ) := by
  rw [columnCount, dif_pos j.isLt, Vector.getElem_ofFn, rowSum_cooccurrence]

/-- An entry is stored if it is **not zero**. -/
theorem isStored_real {x : ℝ} : isStored x = true ↔ x ≠ 0 := by
  rw [isStored, Bool.not_eq_true', ← Bool.not_eq_true, Scalar.eq_real]

/-- The counts that are stored are those of pairs that **somebody has together**. -/
theorem isStored_cooccurrence {i j : Fin m} :
    isStored ((cooccurrence users).entry i j) = true ↔ j ≠ i ∧ 0 < commonUsers users i j := by
  rw [isStored_real, cooccurrence_eq, ne_comm (a := j)]
  by_cases h : i = j
  · simp [h]
  · simp [h, Nat.pos_iff_ne_zero]

/-- No stored count leads to a division by zero, or to the logarithm of **what is not positive**. -/
theorem quotient_pos {i j : Fin m} (h : isStored ((cooccurrence users).entry i j) = true) :
    rowSum (cooccurrence users) i * rowSum (cooccurrence users) j ≠ 0 ∧
      0 < (cooccurrence users).entry i j * entrySum (cooccurrence users)
        / (rowSum (cooccurrence users) i * rowSum (cooccurrence users) j) := by
  obtain ⟨hne, hpos⟩ := (isStored_cooccurrence users).1 h
  obtain ⟨hij, hi, hj, hall⟩ := counts_pos users hne hpos
  rw [rowSum_cooccurrence, rowSum_cooccurrence, entrySum_cooccurrence, cooccurrence_eq,
    if_neg hne.symm]
  exact ⟨(mul_pos hi hj).ne', by positivity⟩

theorem Scalar.max_real (a b : ℝ) : Scalar.max a b = a ⊔ b := by
  rw [Scalar.max, max_def_lt]
  exact if_congr Scalar.lt_real rfl rfl

/-- A matrix that **associates** items: its entry at a related pair is their association, and every
other entry is zero. -/
structure Associates (M : Mat ℝ m m) (s : ℝ) : Prop where
  related : ∀ i j, Related users s i j → M.entry i j = association users s i j
  unrelated : ∀ i j, ¬ Related users s i j → M.entry i j = 0

/-- The weights of the counts associate items. -/
theorem associates_weights {s : ℝ} (hs : 0 < s) :
    Associates users (weights (cooccurrence users) (Real.log s)) s := by
  have hentry : ∀ i j, (weights (cooccurrence users) (Real.log s)).entry i j
      = if isStored ((cooccurrence users).entry i j) then
          weight ((cooccurrence users).entry i j) (entrySum (cooccurrence users))
            (rowSum (cooccurrence users) i)
            (columnCount (Vector.ofFn (rowSum (cooccurrence users))) j.val) (Real.log s)
        else 0 := by
    intro i j
    rw [weights, Mat.entry_eq, Fin.getElem_fin, Fin.getElem_fin, Mat.getElem_ofFn, Vec.entry_eq,
      Fin.getElem_fin, Vector.getElem_ofFn]
  have hweight : ∀ i j, isStored ((cooccurrence users).entry i j) = true →
      (weights (cooccurrence users) (Real.log s)).entry i j = max (association users s i j) 0 := by
    intro i j hstored
    rw [hentry, if_pos hstored, weight, Scalar.max_real, cooccurrence_eq,
      if_neg ((isStored_cooccurrence users).1 hstored).1.symm, entrySum_cooccurrence,
      columnCount_rowSum, rowSum_cooccurrence]
    rfl
  refine ⟨fun i j h => ?_, fun i j h => ?_⟩
  · rw [hweight i j ((isStored_cooccurrence users).2 ⟨h.1, h.commonUsers_pos users hs⟩)]
    exact max_eq_left (h.association_pos users hs).le
  · by_cases hstored : isStored ((cooccurrence users).entry i j) = true
    · obtain ⟨hne, hpos⟩ := (isStored_cooccurrence users).1 hstored
      rw [hweight i j hstored]
      exact max_eq_right (not_lt.1 (mt (related_iff_association_pos users hs hne hpos).2 h))
    · rw [hentry, if_neg hstored]

/-- In exact arithmetic **every positive shift** leads to a matrix of weights. -/
theorem sppmi_cooccurrence [Spelling] {shift : Setting ℝ} {s : ℝ} (hshift : shift.measured = .ok s)
    (hs : 0 < s) :
    ∃ M, sppmi (cooccurrence users) shift = .ok M ∧ Associates users M s := by
  have hpositive : shift.atMost 0 = .ok false :=
    Setting.atMost_of_lt (Setting.number_of_measured hshift) hs
  by_cases hnone : pairs users = 0
  · -- without counts there are no neighbours either
    have hzero : Scalar.eq (entrySum (cooccurrence users)) 0 = true := by
      rw [Scalar.eq_real, entrySum_cooccurrence, hnone, Nat.cast_zero]
    refine ⟨Mat.zero, bind_eq_ok_iff.2 ⟨false, hpositive, bind_eq_ok_iff.2 ⟨(), rfl, ?_⟩⟩, ?_⟩
    · rw [if_pos hzero]
      rfl
    · refine ⟨fun i j h => ?_, fun i j _ => Mat.getElem_zero _ _ _ _⟩
      have hpairs := (counts_pos users h.1 (h.commonUsers_pos users hs)).2.2.2
      rw [hnone, Nat.cast_zero] at hpairs
      exact absurd hpairs (lt_irrefl 0)
  · have hzero : ¬ Scalar.eq (entrySum (cooccurrence users)) 0 = true := by
      rw [Scalar.eq_real, entrySum_cooccurrence]
      exact_mod_cast hnone
    have hfits : fits (cooccurrence users) = true := by simp [fits]
    refine ⟨weights (cooccurrence users) (Scalar.log s), bind_eq_ok_iff.2 ⟨false, hpositive,
      bind_eq_ok_iff.2 ⟨(), rfl, ?_⟩⟩, associates_weights users hs⟩
    rw [if_neg hzero, if_pos hfits, hshift]
    rfl

end

/-! ### Rows -/

section

variable {α : Type} [Numeral α] {items : List Key} (M : Mat α items.length items.length)

/-- What is **stored in a row** of a matrix, by item. -/
def storedRow (i : Fin items.length) : List (Key × α) :=
  ((List.finRange items.length).filter fun j => isStored (M.entry i j)).map fun j =>
    (items[j], M.entry i j)

theorem neighborRow_eq (i : Fin items.length) :
    neighborRow items M[i] = .ok (storedRow M i) := by
  rw [neighborRow]
  refine Eq.trans (congrArg (fun f => List.mapM f _) (funext fun j => ?_)) List.mapM_pure
  rw [List.getElem?_eq_getElem j.isLt]
  rfl

/-- A list with its places is the list **read at all its places**. -/
theorem zipIdx_eq_map_finRange {β : Type} (xs : List β) :
    xs.zipIdx = (List.finRange xs.length).map fun i => (xs[i], i.val) := by
  refine List.ext_getElem ?_ fun k _ _ => ?_
  · rw [List.length_zipIdx, List.length_map, List.length_finRange]
  · rw [List.getElem_zipIdx, List.getElem_map, List.getElem_finRange, zero_add]
    rfl

/-- The rows of a matrix are **inserted one by one**, those apart in which nothing is stored. -/
theorem rowsOfMatrix_eq_foldl : rowsOfMatrix M items
    = .ok (((List.finRange items.length).filter fun i => !(storedRow M i).isEmpty).foldl
      (fun t i => t.insert items[i] (storedRow M i)) Table.empty) := by
  let step (t : Table Key (List (Key × α))) (i : Fin items.length) : Table Key (List (Key × α)) :=
    if (!(storedRow M i).isEmpty) = true then t.insert items[i] (storedRow M i) else t
  have hfold : rowsOfMatrix M items
      = (List.finRange items.length).foldlM (fun t i => pure (step t i)) Table.empty := by
    rw [rowsOfMatrix, zipIdx_eq_map_finRange, List.foldlM_map]
    refine congrArg (fun f => List.foldlM f _ _) (funext₂ fun t i => ?_)
    have hrow : neighborRow items M[i.val] = .ok (storedRow M i) := neighborRow_eq M i
    rw [dif_pos i.isLt, hrow]
    change _ = pure (if (!(storedRow M i).isEmpty) = true then _ else _)
    cases storedRow M i <;> rfl
  rw [hfold, List.foldlM_pure, ← List.foldl_filter]
  rfl

/-- The rows of a matrix over distinct items: **one for each item** that has anything stored. -/
theorem rowsOfMatrix_eq_ok (hitems : items.Nodup) :
    ∃ t, rowsOfMatrix M items = .ok t ∧
      (∀ k ∈ t, k ∈ items) ∧
      (∀ i : Fin items.length, items[i] ∈ t ↔ storedRow M i ≠ []) ∧
      ∀ i : Fin items.length, (t.get? items[i]).getD [] = storedRow M i := by
  let kept : List (Fin items.length) :=
    (List.finRange items.length).filter fun i => !(storedRow M i).isEmpty
  let t : Table Key (List (Key × α)) :=
    kept.foldl (fun t i => t.insert items[i] (storedRow M i)) Table.empty
  have hinj : ∀ i j : Fin items.length, items[i] = items[j] → i = j := fun i j h =>
    Fin.ext ((hitems.getElem_inj_iff).1 h)
  have hnodup : (kept.map fun i => items[i]).Nodup :=
    ((List.nodup_finRange _).filter _).map_on fun i _ j _ => hinj i j
  have hentries : t.entries = kept.map fun i => (items[i], storedRow M i) :=
    Table.entries_foldl_insert _ hnodup fun i _ => Table.not_mem_empty _
  have hkept : ∀ i, i ∈ kept ↔ storedRow M i ≠ [] := by
    intro i
    simp [kept]
  have hmem : ∀ i : Fin items.length, items[i] ∈ t ↔ storedRow M i ≠ [] := by
    intro i
    rw [Table.mem_iff, Table.keys, hentries, List.map_map, ← hkept]
    constructor
    · intro h
      obtain ⟨j, hj, heq⟩ := List.mem_map.1 h
      exact hinj j i heq ▸ hj
    · exact fun h => List.mem_map.2 ⟨i, h, rfl⟩
  refine ⟨t, rowsOfMatrix_eq_foldl M, ?_, hmem, ?_⟩
  · intro k hk
    rw [Table.mem_iff, Table.keys, hentries, List.map_map] at hk
    obtain ⟨i, -, rfl⟩ := List.mem_map.1 hk
    exact List.getElem_mem _
  · intro i
    by_cases hi : storedRow M i = []
    · rw [hi, Table.get?_eq_none_iff.2 (mt (hmem i).1 (not_not.2 hi))]
      rfl
    · have hentry : (items[i], storedRow M i) ∈ t.entries := by
        rw [hentries]
        exact List.mem_map.2 ⟨i, (hkept i).2 hi, rfl⟩
      rw [Table.get?_of_mem_entries hentry]
      rfl

end

/-- What is stored of a matrix that associates items are the **associations of related pairs**. -/
theorem mem_storedRow [Spelling] {items : List Key} {users : List (Vec ℝ items.length)} {s : ℝ}
    (hs : 0 < s) {M : Mat ℝ items.length items.length} (h : Associates users M s)
    (i : Fin items.length) (e : Key × ℝ) : e ∈ storedRow M i ↔
      ∃ j, Related users s i j ∧ e = (items[j], association users s i j) := by
  have hstored : ∀ j, isStored (M.entry i j) = true ↔ Related users s i j := by
    intro j
    rw [isStored_real]
    constructor
    · exact fun hne => not_not.1 (mt (h.unrelated i j) hne)
    · intro hrelated
      rw [h.related i j hrelated]
      exact (hrelated.association_pos users hs).ne'
  rw [storedRow, List.mem_map]
  constructor
  · rintro ⟨j, hj, rfl⟩
    have hrelated := (hstored j).1 (List.mem_filter.1 hj).2
    exact ⟨j, hrelated, by rw [h.related i j hrelated]⟩
  · rintro ⟨j, hrelated, rfl⟩
    refine ⟨j, List.mem_filter.2 ⟨List.mem_finRange j, (hstored j).2 hrelated⟩, ?_⟩
    rw [h.related i j hrelated]

/-- **Rows of neighbours by counting**: for distinct items and any positive shift an item has a row
exactly if it is related to another item, and the row lists the related items, each once, with a
positive weight. No weight is the logarithm of a quotient that is not positive, items are each
other's neighbours with the same weight, and no item is its own. -/
theorem sppmiRows_eq_ok [Spelling] {items : List Key} (hitems : items.Nodup)
    (users : List (Vec ℝ items.length)) {shift : Setting ℝ} {s : ℝ}
    (hshift : shift.measured = .ok s) (hs : 0 < s) :
    ∃ t, sppmiRows users items shift = .ok t ∧
      (∀ k ∈ t, k ∈ items) ∧
      (∀ i : Fin items.length, items[i] ∈ t ↔ ∃ j, Related users s i j) ∧
      (∀ i : Fin items.length, (((t.get? items[i]).getD []).map Prod.fst).Nodup ∧
        ∀ e, e ∈ (t.get? items[i]).getD [] ↔
          ∃ j, Related users s i j ∧ e = (items[j], association users s i j)) ∧
      (∀ i j, Related users s i j → 0 < association users s i j) ∧
      (∀ i j, isStored ((cooccurrence users).entry i j) = true →
        rowSum (cooccurrence users) i * rowSum (cooccurrence users) j ≠ 0 ∧
          0 < (cooccurrence users).entry i j * entrySum (cooccurrence users)
            / (rowSum (cooccurrence users) i * rowSum (cooccurrence users) j)) ∧
      (∀ (i j : Fin items.length) (w : ℝ),
        (items[j], w) ∈ (t.get? items[i]).getD [] ↔ (items[i], w) ∈ (t.get? items[j]).getD []) ∧
      ∀ (i : Fin items.length) (w : ℝ), (items[i], w) ∉ (t.get? items[i]).getD [] := by
  obtain ⟨M, hM, hM'⟩ := sppmi_cooccurrence users hshift hs
  obtain ⟨t, ht, hkeys, hmem, hrow⟩ := rowsOfMatrix_eq_ok M hitems
  have hinj : ∀ i j : Fin items.length, items[i] = items[j] → i = j := fun i j h =>
    Fin.ext ((hitems.getElem_inj_iff).1 h)
  have hlisted : ∀ (i : Fin items.length) (e : Key × ℝ), e ∈ (t.get? items[i]).getD [] ↔
      ∃ j, Related users s i j ∧ e = (items[j], association users s i j) := by
    intro i e
    rw [hrow]
    exact mem_storedRow hs hM' i e
  have hpair : ∀ (i j : Fin items.length) (w : ℝ), (items[j], w) ∈ (t.get? items[i]).getD [] ↔
      Related users s i j ∧ w = association users s i j := by
    intro i j w
    rw [hlisted]
    constructor
    · rintro ⟨j', hrelated, heq⟩
      obtain ⟨hitem, hweight⟩ := Prod.mk.inj heq
      obtain rfl := hinj j j' hitem
      exact ⟨hrelated, hweight⟩
    · rintro ⟨hrelated, rfl⟩
      exact ⟨j, hrelated, rfl⟩
  refine ⟨t, bind_eq_ok_iff.2 ⟨M, hM, ht⟩, hkeys, ?_, fun i => ⟨?_, hlisted i⟩, fun i j h => ?_,
    fun i j => quotient_pos users, ?_, ?_⟩
  · intro i
    rw [hmem, ← hrow]
    constructor
    · intro h
      obtain ⟨e, he⟩ := List.exists_mem_of_ne_nil _ h
      obtain ⟨j, hrelated, -⟩ := (hlisted i e).1 he
      exact ⟨j, hrelated⟩
    · rintro ⟨j, hrelated⟩
      exact List.ne_nil_of_mem ((hlisted i _).2 ⟨j, hrelated, rfl⟩)
  · rw [hrow, storedRow, List.map_map]
    exact ((List.nodup_finRange _).filter _).map_on fun i _ j _ => hinj i j
  · exact h.association_pos users hs
  · intro i j w
    rw [hpair, hpair, related_comm, association_comm]
  · intro i w h
    exact ((hpair i i w).1 h).1.1 rfl

/-- Two users have the first two items and one has the last two: the first item has **one
neighbour**. -/
theorem sppmiRows_eq_ok_chain :
    letI := Spelling.silent
    let items : List Key := [.text "a", .text "b", .text "c"]
    let users : List (Vec ℝ items.length) := [#v[1, 1, 0], #v[2, 1, -1], #v[0, 1, 1]]
    items.Nodup ∧ (Setting.integer (α := ℝ) 1).measured = .ok 1 ∧ (0 : ℝ) < 1 ∧
      ∃ t, sppmiRows users items (.integer 1) = .ok t ∧
        ∀ e, e ∈ (t.get? (.text "a")).getD [] ↔ e = (.text "b", Real.log 2) := by
  let _ := Spelling.silent
  intro items users
  have hnodup : items.Nodup := by decide
  have hshift : (Setting.integer (α := ℝ) 1).measured = .ok 1 := by
    rw [Setting.measured, if_pos (by decide), Scalar.ofInt_real, Int.cast_one]
  have hcommon : ∀ i j : Fin 3,
      commonUsers users i j = ![![2, 2, 0], ![2, 3, 1], ![0, 1, 1]] i j := by
    intro i j
    fin_cases i <;> fin_cases j <;> norm_num [commonUsers, users, List.countP_cons]
  have hpartners : ∀ i : Fin 3, partners users i = ![2, 3, 1] i := by
    intro i
    refine (sum_congr rfl fun j _ => hcommon i j).trans ?_
    revert i
    decide
  have hpairs : pairs users = 6 := (sum_congr rfl fun i _ => hpartners i).trans (by decide)
  have hrelated : ∀ j : Fin 3, Related users 1 0 j ↔ j = 1 := by
    intro j
    rw [Related, hpartners, hpartners, hcommon, hpairs]
    fin_cases j <;> norm_num
  have hweight : association users 1 0 1 = Real.log 2 := by
    rw [association, hpartners, hpartners, hcommon, hpairs]
    norm_num
  refine ⟨hnodup, hshift, zero_lt_one, ?_⟩
  obtain ⟨t, ht, -, -, hrow, -⟩ := sppmiRows_eq_ok hnodup users hshift zero_lt_one
  refine ⟨t, ht, fun e => ((hrow 0).2 e).trans ?_⟩
  constructor
  · rintro ⟨j, hj, rfl⟩
    obtain rfl := (hrelated j).1 hj
    rw [hweight]
    rfl
  · rintro rfl
    refine ⟨1, (hrelated 1).2 rfl, ?_⟩
    rw [hweight]
    rfl

end CoEmbed
