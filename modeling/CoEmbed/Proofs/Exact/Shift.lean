import CoEmbed.Proofs.Exact.Neighbors
import CoEmbed.Update

/-!
# Higher Shifts

A higher shift lowers all weights by the same amount, and what is not positive any more is not
listed any more. So a higher shift never brings a neighbour, as long as no item is listed twice.

* `Row.lowered`, `Table.lowered` — rows of neighbours with all weights lowered.
* `Associates.entry_lowered` — the weights of two shifts.
* `neighborRow_lowered` — the row of an item.
* `stacked`, `rowsOfMatrix_eq_map` — how rows become a table.
* `exists_rows_of_shifts`, `sppmiRows_lowered` — the rows of two shifts.
* `halves` — two pairs of items, of which one stays.

## Item convention

Of an item that is listed twice the last row that has any neighbours is kept, and a higher shift may
take this row away and leave an earlier one.
-/

namespace CoEmbed

variable {m n : ℕ}

/-- A row **with all weights lowered**: those that are not positive any more are left out. -/
noncomputable def Row.lowered (d : ℝ) (row : Row ℝ) : Row ℝ :=
  row.filterMap fun e => if 0 < e.2 - d then some (e.1, e.2 - d) else none

/-- A table of rows with all weights lowered, without those rows that are **left empty**. -/
noncomputable def Table.lowered (d : ℝ) (t : Table Key (Row ℝ)) : Table Key (Row ℝ) where
  entries := (t.entries.map fun e => (e.1, Row.lowered d e.2)).filter fun e => !e.2.isEmpty
  nodup := by
    refine (List.filter_sublist.map Prod.fst).nodup ?_
    rw [List.map_map]
    exact t.nodup

theorem Table.entries_lowered (d : ℝ) (t : Table Key (Row ℝ)) : (t.lowered d).entries
    = (t.entries.map fun e => (e.1, Row.lowered d e.2)).filter fun e => !e.2.isEmpty := rfl

/-- What is left of a row **has been there before**. -/
theorem Row.mem_of_mem_lowered {d : ℝ} {row : Row ℝ} {j : Key}
    (h : j ∈ (row.lowered d).map Prod.fst) : j ∈ row.map Prod.fst := by
  obtain ⟨e, he, rfl⟩ := List.mem_map.1 h
  obtain ⟨e', he', hsome⟩ := List.mem_filterMap.1 he
  split at hsome
  · obtain rfl := Option.some.inj hsome
    exact List.mem_map.2 ⟨e', he', rfl⟩
  · cases hsome

/-! ### Weights -/

section

variable {users : List (Vec ℝ m)} {s s' : ℝ} {M M' : Mat ℝ m m}

/-- Items that are related at a shift are related at **every lower one**. -/
theorem Related.mono {i j : Fin m} (hle : s ≤ s') (h : Related users s' i j) :
    Related users s i j :=
  ⟨h.1, (mul_le_mul_of_nonneg_right hle (by positivity)).trans_lt h.2⟩

/-- A higher shift **lowers every weight** by the same amount, but not below zero. -/
theorem Associates.entry_lowered (hs : 0 < s) (hle : s ≤ s') (h : Associates users M s)
    (h' : Associates users M' s') (i j : Fin m) :
    M'.entry i j = max (M.entry i j - Real.log (s' / s)) 0 := by
  have hs' : 0 < s' := hs.trans_le hle
  have hd : Real.log (s' / s) = Real.log s' - Real.log s := Real.log_div hs'.ne' hs.ne'
  by_cases hrelated : Related users s i j
  · have hweight : M.entry i j - Real.log (s' / s) = association users s' i j := by
      rw [h.related i j hrelated, hd, association, association]
      ring
    rw [hweight]
    by_cases hrelated' : Related users s' i j
    · rw [h'.related i j hrelated', max_eq_left (hrelated'.association_pos users hs').le]
    · have hsome := hrelated.commonUsers_pos users hs
      rw [h'.unrelated i j hrelated', max_eq_right]
      exact not_lt.1 (mt (related_iff_association_pos users hs' hrelated.1 hsome).2 hrelated')
  · have hnonneg : 0 ≤ Real.log (s' / s) := Real.log_nonneg ((one_le_div hs).2 hle)
    rw [h.unrelated i j hrelated, h'.unrelated i j fun h => hrelated (h.mono hle), max_eq_right]
    linarith

end

/-! ### Rows -/

/-- The row of entries that are lowered is **the row lowered**. -/
theorem neighborRow_lowered [Spelling] {items : List Key} {v v' : Vec ℝ n} {d : ℝ} (hd : 0 ≤ d)
    (hv : ∀ j, v'.entry j = max (v.entry j - d) 0) {row : Row ℝ}
    (h : neighborRow items v = .ok row) : neighborRow items v' = .ok (row.lowered d) := by
  rw [neighborRow] at h ⊢
  generalize List.finRange n = js at h ⊢
  induction js generalizing row with
  | nil =>
      obtain rfl : [] = row := Except.ok.inj h
      rfl
  | cons j js ih =>
      have hleft : isStored (v'.entry j) = true ↔ 0 < v.entry j - d := by
        rw [isStored_real, hv, ne_eq, max_eq_right_iff, not_le]
      by_cases hstored : isStored (v.entry j) = true
      · rw [List.filter_cons_of_pos (by exact hstored), List.mapM_cons] at h
        obtain ⟨e, he, h⟩ := bind_eq_ok_iff.1 h
        obtain ⟨rest, hrest, h⟩ := bind_eq_ok_iff.1 h
        obtain rfl : e :: rest = row := Except.ok.inj h
        cases hitem : items[j.val]? with
        | none =>
            rw [hitem] at he
            cases he
        | some item =>
            rw [hitem] at he
            obtain rfl : (item, v.entry j) = e := Except.ok.inj he
            rw [Row.lowered, List.filterMap_cons]
            by_cases hpos : 0 < v.entry j - d
            · rw [if_pos hpos, List.filter_cons_of_pos (by exact hleft.2 hpos), List.mapM_cons]
              refine bind_eq_ok_iff.2 ⟨_, ?_, bind_eq_ok_iff.2 ⟨_, ih hrest, rfl⟩⟩
              rw [hitem, hv, max_eq_left hpos.le]
            · rw [if_neg hpos, List.filter_cons_of_neg (by exact mt hleft.1 hpos)]
              exact ih hrest
      · have hzero : v.entry j = 0 := not_not.1 (mt isStored_real.2 hstored)
        have hnot : ¬ 0 < v.entry j - d := by
          rw [hzero, zero_sub]
          exact not_lt.2 (neg_nonpos.2 hd)
        rw [List.filter_cons_of_neg (by exact hstored)] at h
        rw [List.filter_cons_of_neg (by exact mt hleft.1 hnot)]
        exact ih h

/-! ### Tables -/

/-- If each member has another result, made of what it had, then so has **the whole list**. -/
theorem mapM_eq_ok_map {ε β γ δ : Type} {f : β → Except ε γ} {f' : β → Except ε δ} {g : γ → δ}
    (h : ∀ x y, f x = .ok y → f' x = .ok (g y)) {xs : List β} {ys : List γ}
    (hys : xs.mapM f = .ok ys) : xs.mapM f' = .ok (ys.map g) := by
  induction xs generalizing ys with
  | nil =>
      obtain rfl : [] = ys := Except.ok.inj hys
      rfl
  | cons x xs ih =>
      rw [List.mapM_cons] at hys ⊢
      obtain ⟨y, hy, hys⟩ := bind_eq_ok_iff.1 hys
      obtain ⟨ys', hys', hys⟩ := bind_eq_ok_iff.1 hys
      obtain rfl : y :: ys' = ys := Except.ok.inj hys
      exact bind_eq_ok_iff.2 ⟨g y, h x y hy, bind_eq_ok_iff.2 ⟨_, ih hys', rfl⟩⟩

section

variable {α : Type}

/-- The **table of some rows**, those apart that are empty. -/
def stacked (rows : List (Key × Row α)) : Table Key (Row α) :=
  Table.ofList (rows.filter fun e => !e.2.isEmpty)

/-- What is kept for an item is **one of its rows** that are not empty. -/
theorem mem_of_get?_stacked {rows : List (Key × Row α)} {k : Key} {row : Row α}
    (h : (stacked rows).get? k = some row) : (k, row) ∈ rows ∧ row ≠ [] := by
  obtain ⟨hmem, hrow⟩ := List.mem_filter.1 (Table.mem_of_get?_ofList h)
  exact ⟨hmem, by simpa using hrow⟩

/-- A table of rows has a row for the items that have **neighbours in some row**. -/
theorem mem_stacked {rows : List (Key × Row α)} {k : Key} :
    k ∈ stacked rows ↔ ∃ row, (k, row) ∈ rows ∧ row ≠ [] := by
  rw [stacked, Table.mem_ofList, List.mem_map]
  constructor
  · rintro ⟨e, he, rfl⟩
    obtain ⟨hmem, hrow⟩ := List.mem_filter.1 he
    exact ⟨e.2, hmem, by simpa using hrow⟩
  · rintro ⟨row, hmem, hrow⟩
    exact ⟨(k, row), List.mem_filter.2 ⟨hmem, by simpa using hrow⟩, rfl⟩

/-- An item has a row exactly if it is **listed with neighbours** there. -/
theorem mem_stacked_iff_getD {rows : List (Key × Row α)} {k : Key} :
    k ∈ stacked rows ↔ ((stacked rows).get? k).getD [] ≠ [] := by
  cases hrow : (stacked rows).get? k with
  | none => exact iff_of_false (Table.get?_eq_none_iff.1 hrow) (not_not_intro rfl)
  | some row => exact iff_of_true (Table.mem_of_get? hrow) (mem_of_get?_stacked hrow).2

/-- A row that is not empty is kept if **nothing but empty rows** of its item comes after it. -/
theorem get?_stacked_of_rest (past : List (Key × Row α)) {rest : List (Key × Row α)} {k : Key}
    {row : Row α} (hrow : row ≠ []) (hrest : ∀ row', (k, row') ∈ rest → row' = []) :
    (stacked (past ++ (k, row) :: rest)).get? k = some row := by
  have hnone : k ∉ (rest.filter fun e => !e.2.isEmpty).map Prod.fst := by
    intro hmem
    obtain ⟨⟨k', row'⟩, he, rfl⟩ := List.mem_map.1 hmem
    obtain ⟨hlisted, hfilled⟩ := List.mem_filter.1 he
    obtain rfl := hrest row' hlisted
    cases hfilled
  rw [stacked, Table.ofList, List.filter_append, List.filter_cons_of_pos (by simpa using hrow),
    List.foldl_append, List.foldl_cons,
    Table.get?_foldl_insert_of_count (by rw [List.count_eq_zero.2 hnone]; exact Nat.zero_le 1),
    Table.valueIn_eq_none_iff.2 hnone, Table.get?_insert_self]
  rfl

/-- What is kept for an item is **the last** of its rows that are not empty. -/
theorem get?_stacked_of_last (past : List (Key × Row α)) {rest : List (Key × Row α)} {k : Key}
    {row : Row α} (hrow : row ≠ []) (hrest : k ∉ rest.map Prod.fst) :
    (stacked (past ++ (k, row) :: rest)).get? k = some row :=
  get?_stacked_of_rest past hrow fun _ hmem => absurd (List.mem_map_of_mem hmem) hrest

/-- An item that is listed once keeps **its row**. -/
theorem getD_get?_stacked {rows : List (Key × Row α)} {k : Key}
    (h : (rows.map Prod.fst).count k ≤ 1) :
    ((stacked rows).get? k).getD [] = (Table.valueIn k rows).getD [] := by
  have hfiltered : (((rows.filter fun e => !e.2.isEmpty).map Prod.fst).count k) ≤ 1 :=
    ((List.filter_sublist.map Prod.fst).count_le k).trans h
  rw [stacked, Table.ofList, Table.get?_foldl_insert_of_count hfiltered, Table.get?_empty,
    Option.or_none]
  clear hfiltered
  induction rows with
  | nil => rfl
  | cons e rows ih =>
      rw [List.map_cons, List.count_cons] at h
      rw [Table.valueIn]
      by_cases he : e.1 = k
      · rw [if_pos (beq_iff_eq.2 he)] at h
        have hrest : k ∉ rows.map Prod.fst := List.count_eq_zero.1 (by omega)
        have hnone : k ∉ (rows.filter fun e => !e.2.isEmpty).map Prod.fst :=
          mt (fun hmem => (List.filter_sublist.map Prod.fst).subset hmem) hrest
        rw [if_pos he, Option.getD_some]
        cases hrow : e.2 with
        | nil =>
            rw [List.filter_cons_of_neg (by simp [hrow]), Table.valueIn_eq_none_iff.2 hnone]
            rfl
        | cons x xs =>
            rw [List.filter_cons_of_pos (by simp [hrow]), Table.valueIn, if_pos he, hrow]
            rfl
      · rw [if_neg he, ← ih (by omega), List.filter_cons]
        split
        · rw [Table.valueIn, if_neg he]
        · rfl

variable [Numeral α]

/-- The row of **an item at a place**, with the item. -/
def rowAt (M : Mat α m n) (items : List Key) (e : Key × ℕ) : Except Fault (Key × Row α) :=
  if h : e.2 < m then (neighborRow items M[e.2]).map (Prod.mk e.1) else .error .outOfRange

/-- An item **at a place of the matrix** has the row there. -/
theorem rowAt_eq_ok_iff {M : Mat α m n} {items : List Key} {e : Key × ℕ} {x : Key × Row α} :
    rowAt M items e = .ok x ↔
      ∃ (h : e.2 < m) (row : Row α), neighborRow items M[e.2] = .ok row ∧ (e.1, row) = x := by
  rw [rowAt]
  by_cases h : e.2 < m
  · rw [dif_pos h, exists_prop_of_true h]
    cases neighborRow items M[e.2] with
    | error f => exact iff_of_false nofun fun ⟨_, hrow, _⟩ => by cases hrow
    | ok row =>
        constructor
        · exact fun hx => ⟨row, rfl, Except.ok.inj hx⟩
        · rintro ⟨row', hrow, rfl⟩
          obtain rfl := Except.ok.inj hrow
          rfl
  · rw [dif_neg h]
    exact iff_of_false nofun fun ⟨hlt, _⟩ => h hlt

/-- The rows of a matrix are **those of all items**, in order. -/
theorem map_fst_rows {M : Mat α m n} {items : List Key} {rows : List (Key × Row α)}
    (h : items.zipIdx.mapM (rowAt M items) = .ok rows) : rows.map Prod.fst = items := by
  have hfst : items.zipIdx.mapM (fun e => (pure e.1 : Except Fault Key))
      = .ok (rows.map Prod.fst) := by
    refine mapM_eq_ok_map (fun e row hrow => ?_) h
    obtain ⟨-, es, -, rfl⟩ := rowAt_eq_ok_iff.1 hrow
    rfl
  rw [List.mapM_pure, List.zipIdx_map_fst] at hfst
  exact (Except.ok.inj hfst).symm

/-- The rows that a matrix holds are **those of the items, one after the other**. -/
theorem rowsOfMatrix_eq_map (M : Mat α m n) (items : List Key) :
    rowsOfMatrix M items = (items.zipIdx.mapM (rowAt M items)).map stacked := by
  have hstacked : (stacked : List (Key × Row α) → Table Key (Row α))
      = fun rows => rows.foldl (fun t e => if e.2.isEmpty then t else t.insert e.1 e.2) .empty := by
    funext rows
    rw [stacked, Table.ofList, List.foldl_filter]
    refine congrArg (fun f => List.foldl f _ rows) (funext₂ fun t e => ?_)
    cases e.2.isEmpty <;> rfl
  rw [hstacked, ← foldlM_map_eq (rowAt M items), rowsOfMatrix]
  refine congrArg (fun f => List.foldlM f _ _) (funext₂ fun t e => ?_)
  rw [rowAt]
  split
  · next h =>
      cases hrow : neighborRow items M[e.2] with
      | error f => rfl
      | ok row => cases row <;> rfl
  · rfl

/-- Where each column has its item, the rows are **what the matrix stores**. -/
theorem rowsOfMatrix_eq_stacked {items : List Key} (M : Mat α items.length items.length) :
    rowsOfMatrix M items
      = .ok (stacked ((List.finRange items.length).map fun i => (items.get i, storedRow M i))) := by
  rw [rowsOfMatrix_eq_foldl, stacked, List.filter_map, Table.ofList, List.foldl_map]
  rfl

end

/-- The rows of a matrix whose entries are lowered are **the rows lowered**. -/
theorem mapM_rowAt_lowered [Spelling] {M M' : Mat ℝ m n} {d : ℝ} (hd : 0 ≤ d)
    (hM : ∀ i j, M'.entry i j = max (M.entry i j - d) 0)
    {items : List Key} {rows : List (Key × Row ℝ)}
    (h : items.zipIdx.mapM (rowAt M items) = .ok rows) :
    items.zipIdx.mapM (rowAt M' items) = .ok (rows.map fun e => (e.1, e.2.lowered d)) := by
  refine mapM_eq_ok_map (fun e row hrow => ?_) h
  obtain ⟨hlt, es, hes, rfl⟩ := rowAt_eq_ok_iff.1 hrow
  have hlowered : neighborRow items M'[e.2] = .ok (Row.lowered d es) :=
    neighborRow_lowered hd (hM ⟨e.2, hlt⟩) hes
  exact rowAt_eq_ok_iff.2 ⟨hlt, _, hlowered, rfl⟩

theorem valueIn_lowered (d : ℝ) (rows : List (Key × Row ℝ)) (k : Key) :
    (Table.valueIn k (rows.map fun e => (e.1, e.2.lowered d))).getD []
      = ((Table.valueIn k rows).getD []).lowered d := by
  induction rows with
  | nil => rfl
  | cons e rows ih =>
      rw [List.map_cons, Table.valueIn, Table.valueIn]
      split
      · rfl
      · exact ih

/-- If no item is listed twice, the table of lowered rows is **the table lowered**. -/
theorem stacked_lowered (d : ℝ) {rows : List (Key × Row ℝ)} (h : (rows.map Prod.fst).Nodup) :
    stacked (rows.map fun e => (e.1, e.2.lowered d)) = (stacked rows).lowered d := by
  have hkept : ((rows.filter fun e => !e.2.isEmpty).map Prod.fst).Nodup :=
    (List.filter_sublist.map Prod.fst).nodup h
  have hlowered : (((rows.map fun e => (e.1, e.2.lowered d)).filter
      fun e => !e.2.isEmpty).map Prod.fst).Nodup := by
    refine (List.filter_sublist.map Prod.fst).nodup ?_
    rw [List.map_map]
    exact h
  refine Table.ext_entries ?_
  rw [Table.entries_lowered, stacked, Table.entries_ofList hlowered, stacked,
    Table.entries_ofList hkept, List.filter_map, List.filter_map, List.filter_filter]
  refine congrArg _ (List.filter_congr fun e _ => ?_)
  -- a row that is empty has nothing left either
  obtain ⟨k, row⟩ := e
  cases row with
  | nil => rfl
  | cons x row => simp

/-- What a table of lowered rows has a row for, **the table** has one for. -/
theorem mem_stacked_of_lowered {d : ℝ} {rows : List (Key × Row ℝ)} {k : Key}
    (h : k ∈ stacked (rows.map fun e => (e.1, e.2.lowered d))) : k ∈ stacked rows := by
  obtain ⟨row', hmem, hne⟩ := mem_stacked.1 h
  obtain ⟨e, he, heq⟩ := List.mem_map.1 hmem
  obtain ⟨rfl, rfl⟩ := Prod.mk.inj heq
  refine mem_stacked.2 ⟨e.2, he, fun hnil => hne ?_⟩
  rw [hnil]
  rfl

/-- Of an item that is listed once, a table of lowered rows has **the row lowered**. -/
theorem getD_get?_stacked_lowered (d : ℝ) {rows : List (Key × Row ℝ)} {k : Key}
    (h : (rows.map Prod.fst).count k ≤ 1) :
    ((stacked (rows.map fun e => (e.1, e.2.lowered d))).get? k).getD []
      = (((stacked rows).get? k).getD []).lowered d := by
  have hitems : (rows.map fun e => (e.1, e.2.lowered d)).map Prod.fst = rows.map Prod.fst := by
    rw [List.map_map]
    rfl
  rw [getD_get?_stacked (by rwa [hitems]), getD_get?_stacked h, valueIn_lowered]

/-- The tables for two shifts come of **the same rows**, those for the higher shift lowered. -/
theorem exists_rows_of_shifts [Spelling] {users : List (Vec ℝ m)} {items : List Key}
    {shift shift' : Setting ℝ} {s s' : ℝ} (hshift : shift.measured = .ok s)
    (hshift' : shift'.measured = .ok s') (hs : 0 < s) (hle : s ≤ s') {t : Table Key (Row ℝ)}
    (ht : sppmiRows users items shift = .ok t) :
    ∃ rows : List (Key × Row ℝ), rows.map Prod.fst = items ∧ t = stacked rows ∧
      sppmiRows users items shift'
        = .ok (stacked (rows.map fun e => (e.1, e.2.lowered (Real.log (s' / s))))) := by
  obtain ⟨M, hM, hassoc⟩ := sppmi_cooccurrence users hshift hs
  obtain ⟨M', hM', hassoc'⟩ := sppmi_cooccurrence users hshift' (hs.trans_le hle)
  have hd : 0 ≤ Real.log (s' / s) := Real.log_nonneg ((one_le_div hs).2 hle)
  obtain ⟨M₁, hM₁, ht⟩ := bind_eq_ok_iff.1 ht
  obtain rfl := Except.ok.inj (hM.symm.trans hM₁)
  rw [rowsOfMatrix_eq_map] at ht
  cases hrows : items.zipIdx.mapM (rowAt M items) with
  | error f =>
      rw [hrows] at ht
      cases ht
  | ok rows =>
      rw [hrows] at ht
      have hrows' := mapM_rowAt_lowered hd (hassoc.entry_lowered hs hle hassoc') hrows
      refine ⟨rows, map_fst_rows hrows, (Except.ok.inj ht).symm, bind_eq_ok_iff.2 ⟨M', hM', ?_⟩⟩
      rw [rowsOfMatrix_eq_map, hrows']
      rfl

/-- The rows for a shift, of items that may be listed twice: each place has **the items that are
related to it**. -/
theorem sppmiRows_eq_stacked [Spelling] (items : List Key) (users : List (Vec ℝ items.length))
    {shift : Setting ℝ} {s : ℝ} (hshift : shift.measured = .ok s) (hs : 0 < s) :
    ∃ rows : Fin items.length → Row ℝ,
      sppmiRows users items shift
        = .ok (stacked ((List.finRange items.length).map fun i => (items.get i, rows i))) ∧
      ∀ i e, e ∈ rows i ↔
        ∃ j, Related users s i j ∧ e = (items.get j, association users s i j) := by
  obtain ⟨M, hM, hassoc⟩ := sppmi_cooccurrence users hshift hs
  exact ⟨storedRow M, bind_eq_ok_iff.2 ⟨M, hM, rowsOfMatrix_eq_stacked M⟩,
    mem_storedRow hs hassoc⟩

/-- **A higher shift lowers all weights.** Of the rows for two shifts, the lower one given first:
the rows for the higher one are those for the lower one with all weights lowered by the logarithm of
the quotient of the shifts, entries that are not positive any more left out, and then empty rows.
This holds of the whole table if no item is listed twice, and of every item that is listed once in
any case; and no item has a row for the higher shift alone. Where each column has its item there are
rows for every shift. -/
theorem sppmiRows_lowered [Spelling] (users : List (Vec ℝ m)) (items : List Key)
    {shift shift' : Setting ℝ} {s s' : ℝ} (hshift : shift.measured = .ok s)
    (hshift' : shift'.measured = .ok s') (hs : 0 < s) (hle : s ≤ s') :
    (items.length = m → ∃ t, sppmiRows users items shift = .ok t) ∧
    ∀ t, sppmiRows users items shift = .ok t → ∃ t', sppmiRows users items shift' = .ok t' ∧
      (items.Nodup → t' = t.lowered (Real.log (s' / s))) ∧
      (∀ k, items.count k ≤ 1 →
        (t'.get? k).getD [] = Row.lowered (Real.log (s' / s)) ((t.get? k).getD []) ∧
        (k ∈ t' ↔ Row.lowered (Real.log (s' / s)) ((t.get? k).getD []) ≠ []) ∧
        ∀ j, j ∈ ((t'.get? k).getD []).map Prod.fst → j ∈ ((t.get? k).getD []).map Prod.fst) ∧
      ∀ k ∈ t', k ∈ t := by
  refine ⟨?_, fun t ht => ?_⟩
  · rintro rfl
    obtain ⟨rows, hrows, -⟩ := sppmiRows_eq_stacked items users hshift hs
    exact ⟨_, hrows⟩
  · obtain ⟨rows, rfl, rfl, ht'⟩ := exists_rows_of_shifts hshift hshift' hs hle ht
    refine ⟨_, ht', fun hnodup => stacked_lowered _ hnodup, fun k hk => ?_,
      fun k hk => mem_stacked_of_lowered hk⟩
    have hrow := getD_get?_stacked_lowered (Real.log (s' / s)) hk
    refine ⟨hrow, ?_, fun j hj => ?_⟩
    · rw [mem_stacked_iff_getD, hrow]
    · rw [hrow] at hj
      exact Row.mem_of_mem_lowered hj

/-- A lowered table has the **lowered rows** of a table. -/
theorem Table.mem_of_get?_lowered {d : ℝ} {t : Table Key (Row ℝ)} {k j : Key}
    (h : j ∈ (((t.lowered d).get? k).getD []).map Prod.fst) :
    j ∈ ((t.get? k).getD []).map Prod.fst := by
  cases hrow : (t.lowered d).get? k with
  | none =>
      rw [hrow] at h
      cases h
  | some row =>
      rw [hrow] at h
      obtain ⟨e, he, heq⟩ := List.mem_map.1 (List.mem_of_mem_filter (mem_entries_of_get? hrow))
      obtain ⟨rfl, rfl⟩ := Prod.mk.inj heq
      rw [get?_of_mem_entries he]
      exact Row.mem_of_mem_lowered h

/-! ### Two pairs of items -/

/-- One user has the first two items, and two users have the last two. -/
noncomputable def halves : List (Vec ℝ 4) := [#v[1, 1, 0, 0], #v[0, 0, 1, 1], #v[0, 0, 1, 1]]

/-- The shift at which two of these items **part**. -/
def parting (i j : Fin 4) : ℕ :=
  if i.val / 2 ≠ j.val / 2 ∨ i.val = j.val then 0 else if i.val < 2 then 6 else 3

/-- The items of a pair are related at **all lower shifts**. -/
theorem related_halves {s : ℝ} (hs : 0 < s) (i j : Fin 4) :
    Related halves s i j ↔ s < parting i j := by
  have hcommon : ∀ i j : Fin 4, commonUsers halves i j
      = ![![1, 1, 0, 0], ![1, 1, 0, 0], ![0, 0, 2, 2], ![0, 0, 2, 2]] i j := by
    intro i j
    fin_cases i <;> fin_cases j <;> norm_num [commonUsers, halves, List.countP_cons]
  have hpartners : ∀ i : Fin 4, partners halves i = ![1, 1, 2, 2] i := by
    intro i
    refine (Finset.sum_congr rfl fun j _ => hcommon i j).trans ?_
    revert i
    decide
  have hpairs : pairs halves = 6 := (Finset.sum_congr rfl fun i _ => hpartners i).trans (by decide)
  rw [Related, hpartners, hpartners, hcommon, hpairs]
  fin_cases i <;> fin_cases j <;> norm_num [parting]
  all_goals first
    | exact hs.le
    | exact ⟨fun h => by linarith, fun h => by linarith⟩

/-- Above three only **the first pair** is related. -/
theorem val_lt_two_of_related {i j : Fin 4} (h : Related halves 4 i j) : i.val < 2 := by
  have hlt := (related_halves four_pos i j).1 h
  rw [parting] at hlt
  split_ifs at hlt with hapart hfirst
  · norm_num at hlt
  · exact hfirst
  · norm_num at hlt

theorem measured_integer [Spelling] {k : ℤ} (h : -(twoTo 63 : Int) ≤ k ∧ k < (twoTo 64 : Int)) :
    (Setting.integer (α := ℝ) k).measured = .ok (k : ℝ) := by
  rw [Setting.measured, if_pos h, Scalar.ofInt_real]

/-- An item has a row exactly if **one of its places** is related to another place. -/
theorem mem_sppmiRows [Spelling] (items : List Key) {users : List (Vec ℝ items.length)}
    {shift : Setting ℝ} {s : ℝ} (hshift : shift.measured = .ok s) (hs : 0 < s)
    {t : Table Key (Row ℝ)} (ht : sppmiRows users items shift = .ok t) {k : Key} :
    k ∈ t ↔ ∃ i j : Fin items.length, items.get i = k ∧ Related users s i j := by
  obtain ⟨rows, hrows, hrelated⟩ := sppmiRows_eq_stacked items users hshift hs
  obtain rfl := Except.ok.inj (ht.symm.trans hrows)
  rw [mem_stacked]
  constructor
  · rintro ⟨row, hmem, hne⟩
    obtain ⟨i, -, heq⟩ := List.mem_map.1 hmem
    obtain ⟨hitem, rfl⟩ := Prod.mk.inj heq
    obtain ⟨e, he⟩ := List.exists_mem_of_ne_nil _ hne
    obtain ⟨j, hj, -⟩ := (hrelated i e).1 he
    exact ⟨i, j, hitem, hj⟩
  · rintro ⟨i, j, rfl, hj⟩
    exact ⟨rows i, List.mem_map.2 ⟨i, List.mem_finRange i, rfl⟩,
      List.ne_nil_of_mem ((hrelated i _).2 ⟨j, hj, rfl⟩)⟩

/-- With four distinct items a higher shift takes **one of the pairs** away. -/
theorem sppmiRows_lowered_halves :
    letI := Spelling.silent
    let items : List Key := [.text "a", .text "b", .text "c", .text "d"]
    ∃ t t', sppmiRows halves items (.integer 1) = .ok t ∧
      sppmiRows halves items (.integer 4) = .ok t' ∧ t' = t.lowered (Real.log (4 / 1)) ∧
      .text "c" ∈ t ∧ .text "c" ∉ t' ∧ .text "a" ∈ t' := by
  let _ := Spelling.silent
  intro items
  have hone : (Setting.integer (α := ℝ) 1).measured = .ok 1 := by
    rw [measured_integer (by decide), Int.cast_one]
  have hfour : (Setting.integer (α := ℝ) 4).measured = .ok 4 := by
    rw [measured_integer (by decide), Int.cast_ofNat]
  obtain ⟨hexists, hlaw⟩ :=
    sppmiRows_lowered halves items hone hfour one_pos (by norm_num)
  obtain ⟨t, ht⟩ := hexists rfl
  obtain ⟨t', ht', hlowered, -⟩ := hlaw t ht
  refine ⟨t, t', ht, ht', hlowered (by decide), ?_, fun hc => ?_, ?_⟩
  · exact (mem_sppmiRows items hone one_pos ht).2
      ⟨2, 3, rfl, (related_halves one_pos 2 3).2 (by norm_num [parting])⟩
  · obtain ⟨i, j, hitem, hrelated⟩ := (mem_sppmiRows items hfour four_pos ht').1 hc
    have hplace : ∀ i : Fin items.length, items.get i = .text "c" → ¬ i.val < 2 := by decide
    exact hplace i hitem (val_lt_two_of_related hrelated)
  · exact (mem_sppmiRows items hfour four_pos ht').2
      ⟨0, 1, rfl, (related_halves four_pos 0 1).2 (by norm_num [parting])⟩

/-- Of an item that is listed **twice** this does not hold: at the higher shift its last row is
empty, and the neighbour in its first row is one that it has not had before. -/
theorem not_sppmiRows_lowered_repeated :
    letI := Spelling.silent
    let items : List Key := [.text "a", .text "b", .text "a", .text "c"]
    ∃ t t', sppmiRows halves items (.integer 1) = .ok t ∧
      sppmiRows halves items (.integer 4) = .ok t' ∧ t' ≠ t.lowered (Real.log (4 / 1)) ∧
      .text "b" ∈ ((t'.get? (.text "a")).getD []).map Prod.fst ∧
      .text "b" ∉ ((t.get? (.text "a")).getD []).map Prod.fst := by
  let _ := Spelling.silent
  intro items
  have hone : (Setting.integer (α := ℝ) 1).measured = .ok 1 := by
    rw [measured_integer (by decide), Int.cast_one]
  have hfour : (Setting.integer (α := ℝ) 4).measured = .ok 4 := by
    rw [measured_integer (by decide), Int.cast_ofNat]
  obtain ⟨rows, ht, hrelated⟩ := sppmiRows_eq_stacked items halves hone one_pos
  obtain ⟨rows', ht', hrelated'⟩ := sppmiRows_eq_stacked items halves hfour four_pos
  have hone' : Related halves 1 2 3 := (related_halves one_pos 2 3).2 (by norm_num [parting])
  have hfour' : Related halves 4 0 1 := (related_halves four_pos 0 1).2 (by norm_num [parting])
  -- at the lower shift the last row of the item is kept
  have hlast : (stacked ((List.finRange items.length).map fun i => (items.get i, rows i))).get?
      (.text "a") = some (rows 2) :=
    get?_stacked_of_last [(items.get 0, rows 0), (items.get 1, rows 1)]
      (List.ne_nil_of_mem ((hrelated 2 _).2 ⟨3, hone', rfl⟩)) (by decide : _ ∉ [items.get 3])
  -- at the higher shift that row is empty, and the first one is kept
  have hfirst : (stacked ((List.finRange items.length).map fun i => (items.get i, rows' i))).get?
      (.text "a") = some (rows' 0) := by
    have hplace : ∀ i : Fin items.length, items.get i = .text "a" → i.val < 2 → i = 0 := by decide
    obtain ⟨row, hrow⟩ := Table.exists_get? ((mem_sppmiRows items hfour four_pos ht').2
      ⟨0, 1, rfl, hfour'⟩)
    obtain ⟨hmem, hne⟩ := mem_of_get?_stacked hrow
    obtain ⟨i, -, heq⟩ := List.mem_map.1 hmem
    obtain ⟨hitem, rfl⟩ := Prod.mk.inj heq
    obtain ⟨e, he⟩ := List.exists_mem_of_ne_nil _ hne
    obtain ⟨j, hj, -⟩ := (hrelated' i e).1 he
    obtain rfl := hplace i hitem (val_lt_two_of_related hj)
    exact hrow
  have hgained : .text "b" ∈ (rows' 0).map Prod.fst :=
    List.mem_map.2 ⟨_, (hrelated' 0 _).2 ⟨1, hfour', rfl⟩, rfl⟩
  have hnever : .text "b" ∉ (rows 2).map Prod.fst := by
    have hplace : ∀ j : Fin items.length, items.get j = .text "b" → j = 1 := by decide
    intro hmem
    obtain ⟨e, he, heq⟩ := List.mem_map.1 hmem
    obtain ⟨j, hj, rfl⟩ := (hrelated 2 e).1 he
    obtain rfl := hplace j heq
    have hlt := (related_halves one_pos 2 1).1 hj
    norm_num [parting] at hlt
  refine ⟨_, _, ht, ht', fun heq => ?_, ?_, ?_⟩
  · have hlost := Table.mem_of_get?_lowered (k := .text "a") (j := .text "b") <| by
      rw [← heq, hfirst]
      exact hgained
    rw [hlast] at hlost
    exact hnever hlost
  · rw [hfirst]
    exact hgained
  · rw [hlast]
    exact hnever

end CoEmbed
