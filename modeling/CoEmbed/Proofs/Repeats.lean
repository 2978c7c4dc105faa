import CoEmbed.Proofs.Partition

/-!
# Repeated Rows

A log is read for the pairs that it shows, not for how often it shows them: a further row whose
pair an earlier row has shown changes nothing that is made of the log, wherever it is put.

* `distinct_repeat`, `popular_repeat` — lists in which a member is repeated.
* `Frame.Shows` — what a row of a log shows.
* `Frame.Inserts` — a log with a further row.
* `Frame.insertRow` — the log with a further row, its other rows as they stand.
* `Frame.Fits`, `Frame.fits_of_kindOf`, `Frame.fits_real`, `Frame.Fits.inserts` — when the other
  rows come before the cut-off as they did.
* `Tables.ofFrame_of_inserts` — the tables of a log with a repeated row.

## Place convention

A further row is counted by the place that it gets, and the rows from there on move up by one.
Behind the end of a log there is no such place, and nothing is put there.
-/

namespace CoEmbed

/-! ### Repeated members -/

section

variable {κ : Type} [DecidableEq κ]

/-- Repeating an earlier member adds **no distinct member**. -/
theorem distinct_repeat {as : List κ} {x : κ} (hx : x ∈ as) (bs : List κ) :
    distinct (as ++ x :: bs) = distinct (as ++ bs) := by
  induction as with
  | nil => cases hx
  | cons a as ih =>
      rw [List.cons_append, List.cons_append, distinct, distinct]
      refine congrArg (List.cons a) ?_
      by_cases ha : x = a
      · subst ha
        rw [filter_distinct, filter_distinct, List.filter_append, List.filter_append,
          List.filter_cons_of_neg (by simp)]
      · rw [ih ((List.mem_cons.1 hx).resolve_left ha)]

end

/-- Repeating an earlier pair of a log adds **no distinct pair with enough users**: an item has as
many users as before. -/
theorem popular_repeat (enough : ℕ → Bool) {as : List (Key × Key)} {q : Key × Key} (hq : q ∈ as)
    (bs : List (Key × Key)) :
    distinct (popular enough (as ++ q :: bs)) = distinct (popular enough (as ++ bs)) := by
  have hmem : ∀ p, p ∈ as ++ q :: bs ↔ p ∈ as ++ bs := by
    intro p
    rw [← mem_distinct, distinct_repeat hq, mem_distinct]
  have hcount : ∀ i, userCount (as ++ q :: bs) i = userCount (as ++ bs) i := by
    intro i
    simp only [userCount_eq_ncard, hmem]
  rw [popular_eq_filter, popular_eq_filter]
  simp only [hcount]
  rw [← filter_distinct, ← filter_distinct, distinct_repeat hq]

/-- Members put in the same place of two lists are **paired**. -/
theorem zip_insertIdx {β γ : Type} (as : List β) (bs : List γ) (p : ℕ) (a : β) (b : γ) :
    (as.insertIdx p a).zip (bs.insertIdx p b) = (as.zip bs).insertIdx p (a, b) := by
  induction p generalizing as bs with
  | zero => rfl
  | succ p ih =>
      cases as with
      | nil => rfl
      | cons x as =>
          cases bs with
          | nil => simp
          | cons y bs =>
              rw [List.insertIdx_succ_cons, List.insertIdx_succ_cons, List.zip_cons_cons, ih,
                List.zip_cons_cons, List.insertIdx_succ_cons]

variable {α : Type} [Numeral α]

/-! ### Rows of a log -/

namespace Frame

/-- A row before the cut-off **shows a pair** of user and item. -/
def Shows (f : Frame α) (s : Selection α) (k : ℕ) (q : Key × Key) : Prop :=
  ∃ rows, f.rows s = .ok rows ∧ rows[k]? = some (q, true)

/-- The rows that show a pair are those **of any reading** of the log. -/
theorem shows_iff {s : Selection α} {f : Frame α} (r : s.Reading f) (k : ℕ) (q : Key × Key) :
    f.Shows s k q ↔ r.Shows k q := by
  obtain ⟨rows, hrows, hshows⟩ := r.exists_shown
  rw [← hshows]
  exact ⟨fun ⟨rows', hrows', h⟩ => Except.ok.inj (hrows.symm.trans hrows') ▸ h,
    fun h => ⟨rows, hrows, h⟩⟩

/-- A log **with a further row** at a place. Its other rows have the users and the items that they
had, and come before the cut-off where they did. -/
structure Inserts (f : Frame α) (s : Selection α) (f' : Frame α) (p : ℕ) (u i : Setting α) :
    Prop where
  users : f'.column s.userColumn = (f.column s.userColumn).map fun c => c.insertIdx p u
  items : f'.column s.itemColumn = (f.column s.itemColumn).map fun c => c.insertIdx p i
  early : ∃ b, s.early f' = (s.early f).map fun mask => mask.insertIdx p b

variable {f f' : Frame α} {s : Selection α} {p : ℕ} {u i : Setting α}

/-- A further row is **a row**. -/
theorem Inserts.exists_rows (h : f.Inserts s f' p u i) :
    ∃ b, f'.rows s = (f.rows s).map fun rows => rows.insertIdx p ((u.key, i.key), b) := by
  obtain ⟨b, hearly⟩ := h.early
  have hitems : s.items f' = (s.items f).map fun c => c.insertIdx p i := by
    rw [Selection.items, Selection.items]
    split
    · rfl
    · exact h.items
  refine ⟨b, ?_⟩
  rw [rows, rows, hearly, hitems, h.users]
  cases s.early f with
  | error e => rfl
  | ok early =>
      cases s.items f with
      | error e => rfl
      | ok items =>
          cases f.column s.userColumn with
          | error e => rfl
          | ok users =>
              refine congrArg Except.ok ?_
              rw [List.map_insertIdx, List.map_insertIdx, zip_insertIdx, zip_insertIdx]

end Frame

/-- The distinct pairs with enough users are **those of the other rows** if one row repeats an
earlier pair. -/
theorem popular_insertIdx (enough : ℕ → Bool) {rows : List ((Key × Key) × Bool)} {k p : ℕ}
    {q : Key × Key} (hk : rows[k]? = some (q, true)) (hkp : k < p) (b : Bool) :
    distinct (popular enough (((rows.insertIdx p (q, b)).filter fun row => row.2).map Prod.fst))
      = distinct (popular enough ((rows.filter fun row => row.2).map Prod.fst)) := by
  rcases lt_or_ge rows.length p with hp | hp
  · rw [List.insertIdx_of_length_lt hp]
  · obtain ⟨as, bs, rfl, rfl, hinsert⟩ := List.exists_of_modifyTailIdx (List.cons (q, b)) hp
    have hmem : q ∈ (as.filter fun row => row.2).map Prod.fst := by
      rw [List.getElem?_append_left hkp] at hk
      exact List.mem_map_of_mem (List.mem_filter.2 ⟨List.mem_of_getElem? hk, rfl⟩)
    rw [List.insertIdx, hinsert, List.filter_append, List.filter_append, List.map_append,
      List.map_append]
    cases b with
    | false => rfl
    | true => exact popular_repeat enough hmem _

/-- **A repeated row changes no table**, whatever the share of pairs to hold out is, and also where
no tables can be built. -/
theorem Tables.ofFrame_of_inserts [Machine] {f f' : Frame α} {s : Selection α} {p : ℕ}
    {u i : Setting α} (h : f.Inserts s f' p u i)
    (hshown : ∃ k < p, f.Shows s k (u.key, i.key)) (share : Setting α) :
    ofFrame f' { s with share := share } = ofFrame f { s with share := share } := by
  obtain ⟨k, hkp, rows, hrows, hk⟩ := hshown
  obtain ⟨b, hrows'⟩ := h.exists_rows
  have hpairs : f.pairs { s with share := share }
      = .ok ((rows.filter fun row => row.2).map Prod.fst) := by
    refine (f.pairs_eq_rows s).trans ?_
    rw [hrows]
    rfl
  have hpairs' : f'.pairs { s with share := share }
      = .ok (((rows.insertIdx p ((u.key, i.key), b)).filter fun row => row.2).map Prod.fst) := by
    refine (f'.pairs_eq_rows s).trans ?_
    rw [hrows', hrows]
    rfl
  have hpopular := fun enough => popular_insertIdx enough hk hkp b
  rw [ofFrame, ofFrame, hpairs, hpairs']
  simp only [split, bind, Except.bind, hpopular]

/-! ### Further rows -/

namespace Frame

/-- The log with **a further row** at a place, given by its entry for each column. -/
def insertRow (f : Frame α) (p : ℕ) (row : String → Setting α) : Frame α :=
  ⟨f.columns.map fun c => (c.1, c.2.insertIdx p (row c.1))⟩

/-- The entry of a row for a column. -/
def entry (row : String → Setting α) : Setting α → Setting α
  | .text name => row name
  | .absent | .flag _ | .integer _ | .real _ => .absent

variable {f : Frame α} {s : Selection α} {p : ℕ} {row : String → Setting α}

omit [Numeral α] in
/-- A further row adds **its entry** to a column. -/
theorem column_insertRow (name : Setting α) : (f.insertRow p row).column name
    = (f.column name).map fun c => c.insertIdx p (entry row name) := by
  cases name with
  | text name =>
      have hlookup : (f.insertRow p row).columns.lookup name
          = (f.columns.lookup name).map fun c => c.insertIdx p (row name) := by
        rw [insertRow]
        induction f.columns with
        | nil => rfl
        | cons c cs ih =>
            rw [List.map_cons, List.lookup_cons, List.lookup_cons]
            cases hname : name == c.1 with
            | true => rw [beq_iff_eq.1 hname]; rfl
            | false => exact ih
      rw [column, column, hlookup]
      cases f.columns.lookup name <;> rfl
  | absent => rfl
  | flag b => rfl
  | integer k => rfl
  | real x => rfl

/-- A log in which the other rows **come before the cut-off as before** has a further row. -/
theorem inserts_insertRow
    (h : ∃ b, s.early (f.insertRow p row) = (s.early f).map fun mask => mask.insertIdx p b) :
    f.Inserts s (f.insertRow p row) p (entry row s.userColumn) (entry row s.itemColumn) :=
  ⟨column_insertRow s.userColumn, column_insertRow s.itemColumn, h⟩

/-- **Without a cut-off** all rows count, and so does a further one. -/
theorem early_insertRow_of_absent (h : s.cutoff = .absent) (hp : 0 < p) :
    ∃ b, s.early (f.insertRow p row) = (s.early f).map fun mask => mask.insertIdx p b := by
  refine ⟨true, ?_⟩
  have hsize : List.replicate (f.insertRow p row).size true
      = (List.replicate f.size true).insertIdx p true := by
    obtain ⟨p, rfl⟩ := Nat.exists_eq_succ_of_ne_zero hp.ne'
    refine (List.eq_replicate_iff.2 ⟨?_, fun b hb => ?_⟩).symm
    · rw [insertRow, size, size]
      cases f.columns with
      | nil => rfl
      | cons c cs =>
          simp only [List.map_cons, List.length_insertIdx, List.length_replicate]
    · rcases List.eq_or_mem_of_mem_insertIdx hb with rfl | hb
      · rfl
      · exact List.eq_of_mem_replicate hb
  rw [Selection.early, Selection.early, h]
  exact congrArg Except.ok hsize

/-- A column with a further value, in which the others are **below a threshold as before**, gives
the same answers and one more. -/
theorem exists_insertIdx_of_below {column : List (Setting α)} {v c : Setting α}
    {mask mask' : List Bool} (h : below column c = .ok mask)
    (h' : below (column.insertIdx p v) c = .ok mask')
    (hsame : ∀ w ∈ column, IsBelow (column.insertIdx p v) w c ↔ IsBelow column w c) :
    ∃ b, mask' = mask.insertIdx p b := by
  obtain ⟨hlength, hbelow⟩ := below_eq_ok h
  obtain ⟨hlength', hbelow'⟩ := below_eq_ok h'
  refine ⟨mask'.getD p false, List.ext_getElem? fun k => ?_⟩
  -- a place that an old value keeps, or moves to, has the old answer
  have hold : ∀ l : ℕ, (column.insertIdx p v)[k]? = column[l]? → mask'[k]? = mask[l]? := by
    intro l hkl
    rcases lt_or_ge l column.length with hl | hl
    · rw [List.getElem?_eq_getElem hl] at hkl
      have hk : k < (column.insertIdx p v).length := (List.getElem?_eq_some_iff.1 hkl).1
      have hiff := (hbelow' k _ hkl).trans ((hsame _ (List.getElem_mem hl)).trans
        (hbelow l _ (List.getElem?_eq_getElem hl)).symm)
      rw [List.getElem?_eq_getElem (hlength' ▸ hk),
        List.getElem?_eq_getElem (hlength ▸ hl)] at hiff ⊢
      exact congrArg some (Bool.eq_iff_iff.2 (by simpa using hiff))
    · rw [List.getElem?_eq_none hl] at hkl
      rw [List.getElem?_eq_none (hlength.trans_le hl),
        List.getElem?_eq_none (hlength'.trans_le (List.getElem?_eq_none_iff.1 hkl))]
  rw [List.getElem?_insertIdx]
  rcases lt_trichotomy k p with hk | rfl | hk
  · rw [if_pos hk]
    exact hold k (by rw [List.getElem?_insertIdx, if_pos hk])
  · rw [if_neg (lt_irrefl k), if_pos rfl, hlength]
    split
    · next hle =>
        have hk : k < mask'.length := by
          rw [hlength', List.length_insertIdx, if_pos hle]
          exact Nat.lt_succ_of_le hle
        rw [List.getD_eq_getElem _ _ hk, List.getElem?_eq_getElem hk]
    · next hle =>
        refine List.getElem?_eq_none ?_
        rw [hlength', List.length_insertIdx, if_neg hle]
        exact (not_le.1 hle).le
  · rw [if_neg hk.not_gt, if_neg hk.ne']
    exact hold (k - 1) (by rw [List.getElem?_insertIdx, if_neg hk.not_gt, if_neg hk.ne'])

/-- A further row **fits** a log: if there is a cut-off, the times can be compared with it as
before, and so can the time of the row. -/
def Fits (f : Frame α) (s : Selection α) (p : ℕ) (row : String → Setting α) : Prop :=
  s.cutoff = .absent ∨ ∃ times mask, f.column s.timeColumn = .ok times ∧
    below (times.insertIdx p (entry row s.timeColumn)) s.cutoff = .ok mask ∧
    ∀ t ∈ times, IsBelow (times.insertIdx p (entry row s.timeColumn)) t s.cutoff
      ↔ IsBelow times t s.cutoff

/-- A row that leaves the column of times **of its kind** fits, if its time can be compared. -/
theorem fits_of_kindOf {times : List (Setting α)} {mask : List Bool}
    (htimes : f.column s.timeColumn = .ok times)
    (h : below (times.insertIdx p (entry row s.timeColumn)) s.cutoff = .ok mask)
    (hkind : kindOf (times.insertIdx p (entry row s.timeColumn)) = kindOf times) :
    f.Fits s p row :=
  .inr ⟨times, mask, htimes, h, fun t _ => by rw [IsBelow, IsBelow, hkind]⟩

/-- **In exact arithmetic** every row fits whose time can be compared. -/
theorem fits_real [Spelling] {f : Frame ℝ} {s : Selection ℝ} {row : String → Setting ℝ}
    {times : List (Setting ℝ)} {mask : List Bool} (htimes : f.column s.timeColumn = .ok times)
    (h : below (times.insertIdx p (entry row s.timeColumn)) s.cutoff = .ok mask) :
    f.Fits s p row :=
  .inr ⟨times, mask, htimes, h, fun t _ => by rw [isBelow_iff_precedes, isBelow_iff_precedes]⟩

/-- A row that fits is **a further row** of a log that can be read. -/
theorem Fits.inserts (h : f.Fits s p row) {k : ℕ} {q : Key × Key} (hkp : k < p)
    (hshown : f.Shows s k q) :
    f.Inserts s (f.insertRow p row) p (entry row s.userColumn) (entry row s.itemColumn) := by
  by_cases hcutoff : s.cutoff = .absent
  · exact inserts_insertRow (early_insertRow_of_absent hcutoff (Nat.zero_lt_of_lt hkp))
  obtain ⟨times, mask', htimes, hmask', hsame⟩ := h.resolve_left hcutoff
  have hearly : ∀ g : Frame α,
      s.early g = (g.column s.timeColumn).bind fun c => below c s.cutoff := by
    intro g
    rw [Selection.early]
    split
    · next habsent => exact absurd habsent hcutoff
    · rfl
  obtain ⟨rows, hrows, -⟩ := hshown
  obtain ⟨mask, hmask, -⟩ := bind_eq_ok_iff.1 hrows
  rw [hearly, htimes] at hmask
  obtain ⟨b, hb⟩ := exists_insertIdx_of_below hmask hmask' hsame
  refine inserts_insertRow ⟨b, ?_⟩
  rw [hearly, hearly, column_insertRow, htimes]
  change below (times.insertIdx p (entry row s.timeColumn)) s.cutoff
    = (below times s.cutoff).map fun mask => mask.insertIdx p b
  rw [hmask', show below times s.cutoff = .ok mask from hmask, hb]
  rfl

end Frame

end CoEmbed
