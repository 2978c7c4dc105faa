import CoEmbed.Machine.Standard
import CoEmbed.Proofs.Listing
import CoEmbed.Proofs.Threshold

/-!
# The Split of a Log

A log of interactions is split into pairs to train on and pairs to hold out, and the tables hold
exactly the former. What belongs to the split is said here row by row, without a list being
filtered or grouped.

* `Selection.Reading` — the columns of a log that can be read, and the settings of a selection.
* `Frame.rows` — the rows of a log, with whether they come before the cut-off.
* `Reading.Shows`, `Reading.IsWanted`, `Reading.IsHeldOut` — what is in a row, which pairs are
  kept, and which of them are held out.
* `Reading.Lists`, `Reading.Splits` — the wanted pairs in order, and their two sides.
* `Tables.Hold`, `IsNumbering` — tables of the training pairs, and the places of their keys.
* `Hold.mem_row`, `Hold.mem_column`, `matrix_of_hold` — the training pairs, looked up in the tables.
* `Frame.Deals`, `Frame.exists_deals` — where the tables of any log come from.
* `ofFrame_partition` — the tables that a selection takes from a log.

## Row convention

Rows are counted from zero. A row with a missing user is a row: its pair is split like any other,
but no user of that name gets a row in a table.
-/

namespace CoEmbed

variable {α : Type} [Numeral α]

/-! ### Readings -/

/-- A log that a selection **can be taken from**: its columns, all of one length, the numbers that
settings stand for, and the source of the split. Times are there and can be compared if the log is
cut off. -/
structure Selection.Reading (s : Selection α) (f : Frame α) where
  users : List (Setting α)
  items : List (Setting α)
  times : List (Setting α)
  least : α
  share : α
  source : Source
  rectangular : ∀ c ∈ f.columns, c.2.length = f.size
  userColumn : f.column s.userColumn = .ok users
  itemColumn : f.column s.itemColumn = .ok items
  timeColumn : s.cutoff ≠ .absent → f.column s.timeColumn = .ok times
  comparable : s.cutoff ≠ .absent → ∃ mask, below times s.cutoff = .ok mask
  separate : s.isOneColumn = false
  minUsers : s.minUsers.number = .ok least
  ratio : s.share.number = .ok share
  seed : (do Source.ofSeed (← s.seed.count)) = .ok source

namespace Selection.Reading

variable {s : Selection α} {f : Frame α} (r : s.Reading f)

/-- The row comes **before the cut-off**, if there is one: in exact arithmetic its time precedes the
cut-off. -/
def IsEarly (k : ℕ) : Prop :=
  s.cutoff = .absent ∨ ∃ t, r.times[k]? = some t ∧ IsBelow r.times t s.cutoff

/-- A row before the cut-off **shows a pair** of user and item. -/
def Shows (k : ℕ) (p : Key × Key) : Prop :=
  r.IsEarly k ∧ ∃ u i, r.users[k]? = some u ∧ r.items[k]? = some i ∧ p = (u.key, i.key)

/-- A pair is **wanted** if a row shows it, its item is not missing, and the item has enough users
who are not missing. -/
def IsWanted (p : Key × Key) : Prop :=
  (∃ k, r.Shows k p) ∧ p.2 ≠ .missing ∧
    Scalar.le r.least (Scalar.ofNat {u | u ≠ Key.missing ∧ ∃ k, r.Shows k (u, p.2)}.ncard) = true

/-- The draw of a place **falls below** the share of pairs to hold out. -/
def IsHeldOut [Machine] (k : ℕ) : Prop := Scalar.lt (r.source.unit k) r.share = true

/-- A list of **the wanted pairs**, each once, in order of first appearance. -/
structure Lists (pairs : List (Key × Key)) : Prop where
  mem : ∀ p, p ∈ pairs ↔ r.IsWanted p
  nodup : pairs.Nodup
  order : pairs.Pairwise fun p q => ∃ k, r.Shows k p ∧ ∀ l, r.Shows l q → k < l

/-- Each pair of a list is **on one of two sides**, by the draw of its place; the order is kept. -/
structure Splits [Machine] (pairs training heldOut : List (Key × Key)) : Prop where
  mem_heldOut : ∀ k (h : k < pairs.length), pairs[k] ∈ heldOut ↔ r.IsHeldOut k
  mem_training : ∀ k (h : k < pairs.length), pairs[k] ∈ training ↔ ¬ r.IsHeldOut k
  training_sublist : training.Sublist pairs
  heldOut_sublist : heldOut.Sublist pairs
  heldOut_nodup : heldOut.Nodup

end Selection.Reading

/-- The tables **hold the training pairs**: a pair with a user who is not missing is listed once
under its user and once under its item, and no other pair is; rows list in the order of the
pairs. -/
structure Tables.Hold (t : Tables) (training : List (Key × Key)) : Prop where
  users : ∀ u, u ∈ t.users ↔ u ≠ .missing ∧ ∃ i, (u, i) ∈ training
  items : ∀ i, i ∈ t.items ↔ ∃ u, (u, i) ∈ training
  rowOfUser : ∀ u, u ≠ .missing → (t.userItems.get? u).getD []
    = (training.filter fun p => p.1 = u).map Prod.snd
  rowOfItem : ∀ i, (t.itemUsers.get? i).getD []
    = (training.filter fun p => p.2 = i).map Prod.fst
  once : ∀ u i, u ≠ .missing →
    ((t.userItems.get? u).getD []).count i = (if (u, i) ∈ training then 1 else 0) ∧
      ((t.itemUsers.get? i).getD []).count u = if (u, i) ∈ training then 1 else 0

/-- Places that **number the keys** of a table from zero on, in its order. -/
structure IsNumbering (places : List (Key × ℕ)) (keys : List Key) : Prop where
  fst_eq : places.map Prod.fst = keys
  snd_eq : places.map Prod.snd = List.range keys.length
  nodup : keys.Nodup

/-! ### Reading a log -/

theorem le_foldl_max (ns : List ℕ) (m : ℕ) :
    m ≤ ns.foldl max m ∧ ∀ n ∈ ns, n ≤ ns.foldl max m := by
  induction ns generalizing m with
  | nil => exact ⟨le_rfl, fun n hn => absurd hn List.not_mem_nil⟩
  | cons k ns ih =>
      obtain ⟨hm, hns⟩ := ih (max m k)
      refine ⟨(le_max_left m k).trans hm, fun n hn => ?_⟩
      rcases List.mem_cons.1 hn with rfl | hn
      · exact (le_max_right m n).trans hm
      · exact hns n hn

omit [Numeral α] in
/-- A log is given columns **of one length**, however many entries each of them came with. -/
theorem Frame.length_ofColumns (columns : List (String × List (Setting α))) :
    ∀ c ∈ (ofColumns columns).columns, c.2.length = (ofColumns columns).size := by
  let size := (columns.map fun c => c.2.length).foldl max 0
  have hcolumn : ∀ c ∈ (ofColumns columns).columns, c.2.length = size := by
    intro c hc
    obtain ⟨d, hd, rfl⟩ := List.mem_map.1 hc
    have hle : d.2.length ≤ size :=
      (le_foldl_max _ 0).2 _ (List.mem_map_of_mem (f := fun c => c.2.length) hd)
    simp only [List.length_append, List.length_replicate]
    exact Nat.add_sub_cancel' hle
  intro c hc
  rw [hcolumn c hc]
  cases hcolumns : (ofColumns columns).columns with
  | nil =>
      rw [hcolumns] at hc
      cases hc
  | cons d ds =>
      rw [Frame.size, hcolumns]
      exact (hcolumn d (hcolumns ▸ List.mem_cons_self)).symm

/-- The **rows of a log**: the pair of each, with whether it comes before the cut-off. -/
def Frame.rows (f : Frame α) (s : Selection α) : Except Fault (List ((Key × Key) × Bool)) := do
  let early ← s.early f
  let items ← s.items f
  let users ← f.column s.userColumn
  return ((users.map Setting.key).zip (items.map Setting.key)).zip early

/-- The pairs of a log are those of **its early rows**. -/
theorem Frame.pairs_eq_rows (f : Frame α) (s : Selection α) :
    f.pairs s = (f.rows s).map fun rows => (rows.filter fun row => row.2).map Prod.fst := by
  rw [pairs, rows]
  cases s.early f with
  | error e => rfl
  | ok early =>
      cases s.items f with
      | error e => rfl
      | ok items => cases f.column s.userColumn <;> rfl

namespace Selection.Reading

variable {s : Selection α} {f : Frame α} (r : s.Reading f)

include r in
/-- All columns of a log are **as long as the log**. -/
theorem length_column {name : Setting α} {c : List (Setting α)} (h : f.column name = .ok c) :
    c.length = f.size := by
  cases name with
  | text name =>
      simp only [Frame.column] at h
      split at h
      · next d hd =>
          obtain rfl := Except.ok.inj h
          obtain ⟨before, after, hcolumns, -⟩ := List.lookup_eq_some_iff.1 hd
          refine r.rectangular (name, d) ?_
          rw [hcolumns]
          exact List.mem_append_right _ List.mem_cons_self
      · cases h
  | absent => cases h
  | flag b => cases h
  | integer k => cases h
  | real x => cases h

/-- The rows **before the cut-off** are found. -/
theorem exists_mask : ∃ mask, s.early f = .ok mask ∧
    ∀ k < f.size, mask[k]? = some true ↔ r.IsEarly k := by
  by_cases hcutoff : s.cutoff = .absent
  · refine ⟨List.replicate f.size true, ?_, fun k hk => ?_⟩
    · rw [early, hcutoff]
    · rw [List.getElem?_replicate, if_pos hk]
      exact iff_of_true rfl (.inl hcutoff)
  · obtain ⟨mask, hmask⟩ := r.comparable hcutoff
    have htimes := r.timeColumn hcutoff
    obtain ⟨-, hbelow⟩ := below_eq_ok hmask
    refine ⟨mask, ?_, fun k hk => ?_⟩
    · rw [early]
      split
      · next h => exact absurd h hcutoff
      · rw [htimes]
        exact hmask
    · rw [← r.length_column htimes] at hk
      rw [hbelow k _ (List.getElem?_eq_getElem hk)]
      constructor
      · exact fun h => .inr ⟨_, List.getElem?_eq_getElem hk, h⟩
      · rintro (h | ⟨t, ht, h⟩)
        · exact absurd h hcutoff
        · rw [List.getElem?_eq_getElem hk] at ht
          obtain rfl := Option.some.inj ht
          exact h

/-- The early rows of a log are those that **show their pairs**. -/
theorem exists_shown : ∃ rows, f.rows s = .ok rows ∧
    ∀ k p, rows[k]? = some (p, true) ↔ r.Shows k p := by
  obtain ⟨mask, hmask, hearly⟩ := r.exists_mask
  have hitems : s.items f = .ok r.items := by
    have hcolumn := r.itemColumn
    rw [Selection.items]
    split
    · next h =>
        rw [h] at hcolumn
        cases hcolumn
    · exact hcolumn
  have hlt : ∀ k u, r.users[k]? = some u → k < f.size := by
    intro k u hu
    rw [← r.length_column r.userColumn]
    exact (List.getElem?_eq_some_iff.1 hu).1
  refine ⟨((r.users.map Setting.key).zip (r.items.map Setting.key)).zip mask, ?_, fun k p => ?_⟩
  · exact bind_eq_ok_iff.2 ⟨mask, hmask, bind_eq_ok_iff.2 ⟨r.items, hitems,
      bind_eq_ok_iff.2 ⟨r.users, r.userColumn, rfl⟩⟩⟩
  · rw [List.getElem?_zip_eq_some, List.getElem?_zip_eq_some, List.getElem?_map,
      List.getElem?_map, Option.map_eq_some_iff, Option.map_eq_some_iff, Shows]
    constructor
    · rintro ⟨⟨⟨u, hu, hp⟩, i, hi, hp'⟩, hk⟩
      exact ⟨(hearly k (hlt k u hu)).1 hk, u, i, hu, hi, Prod.ext hp.symm hp'.symm⟩
    · rintro ⟨hk, u, i, hu, hi, rfl⟩
      exact ⟨⟨⟨u, hu, rfl⟩, i, hi, rfl⟩, (hearly k (hlt k u hu)).2 hk⟩

/-- The pairs of a log are those that **its rows show**. -/
theorem exists_rows : ∃ rows : List ((Key × Key) × Bool),
    f.pairs s = .ok ((rows.filter fun row => row.2).map Prod.fst) ∧
      ∀ k p, rows[k]? = some (p, true) ↔ r.Shows k p := by
  obtain ⟨rows, hrows, hshows⟩ := r.exists_shown
  exact ⟨rows, by rw [f.pairs_eq_rows, hrows]; rfl, hshows⟩

theorem enough_eq_ok : s.enough = .ok fun n => Scalar.le r.least (Scalar.ofNat n) := by
  have hnumber := r.minUsers
  rw [enough]
  split
  · next h =>
      rw [h] at hnumber
      cases hnumber
  · rw [hnumber]
    rfl

/-- The pairs of the early rows are those that **some row shows**. -/
theorem mem_early {rows : List ((Key × Key) × Bool)}
    (hrows : ∀ k p, rows[k]? = some (p, true) ↔ r.Shows k p) (p : Key × Key) :
    p ∈ (rows.filter fun row => row.2).map Prod.fst ↔ ∃ k, r.Shows k p := by
  rw [List.mem_map]
  constructor
  · rintro ⟨⟨q, b⟩, hmem, rfl⟩
    obtain ⟨hrow, rfl⟩ := List.mem_filter.1 hmem
    obtain ⟨k, hk⟩ := List.mem_iff_getElem?.1 hrow
    exact ⟨k, (hrows k q).1 hk⟩
  · rintro ⟨k, hk⟩
    exact ⟨(p, true), List.mem_filter.2 ⟨List.mem_of_getElem? ((hrows k p).2 hk), rfl⟩, rfl⟩

/-- The distinct pairs whose items have enough users are **the wanted ones**, in order. -/
theorem lists_distinct {rows : List ((Key × Key) × Bool)}
    (hrows : ∀ k p, rows[k]? = some (p, true) ↔ r.Shows k p) :
    r.Lists (distinct (popular (fun n => Scalar.le r.least (Scalar.ofNat n))
      ((rows.filter fun row => row.2).map Prod.fst))) := by
  have hlog := r.mem_early hrows
  have hwanted : ∀ p, p ∈ distinct (popular (fun n => Scalar.le r.least (Scalar.ofNat n))
      ((rows.filter fun row => row.2).map Prod.fst)) ↔ r.IsWanted p := by
    intro p
    rw [mem_distinct, popular_eq_filter, List.mem_filter, hlog, Bool.and_eq_true_iff,
      decide_eq_true_iff, userCount_eq_ncard, IsWanted]
    simp only [hlog]
  refine ⟨hwanted, nodup_distinct _, ?_⟩
  let q : Key × Key → Bool := fun p => decide (p.2 ≠ .missing) && Scalar.le r.least
    (Scalar.ofNat (userCount ((rows.filter fun row => row.2).map Prod.fst) p.2))
  have hkept : popular (fun n => Scalar.le r.least (Scalar.ofNat n))
      ((rows.filter fun row => row.2).map Prod.fst)
      = (rows.filter fun row => q row.1 && row.2).map Prod.fst := by
    rw [popular_eq_filter, List.filter_map, List.filter_filter]
    rfl
  rw [hkept]
  refine (distinct_pairwise (fun row => q row.1 && row.2) Prod.fst rows).imp_of_mem ?_
  rintro a b - hb ⟨k, ⟨⟨a', early⟩, hk, hkeep, rfl⟩, hfirst⟩
  obtain ⟨-, rfl⟩ := Bool.and_eq_true_iff.1 hkeep
  refine ⟨k, (hrows k a').1 hk, fun l hl => ?_⟩
  obtain ⟨row, hrow, rfl⟩ := List.mem_map.1 (mem_distinct.1 hb)
  have hq := (Bool.and_eq_true_iff.1 (List.mem_filter.1 hrow).2).1
  exact hfirst l (row.1, true) ((hrows l row.1).2 hl) (Bool.and_eq_true_iff.2 ⟨hq, rfl⟩) rfl

/-- Draws **split** a list of distinct pairs. -/
theorem splits_dealt [Machine] {pairs : List (Key × Key)} (h : pairs.Nodup) :
    r.Splits pairs (dealt (fun k => !Scalar.lt (r.source.unit k) r.share) pairs)
      (dealt (fun k => Scalar.lt (r.source.unit k) r.share) pairs) where
  mem_heldOut _ hk := mem_dealt h hk
  mem_training _ hk := by
    rw [mem_dealt h hk, IsHeldOut, Bool.not_eq_true', Bool.not_eq_true]
  training_sublist := dealt_sublist _ pairs
  heldOut_sublist := dealt_sublist _ pairs
  heldOut_nodup := (dealt_sublist _ pairs).nodup h

end Selection.Reading

/-! ### Tables of pairs -/

namespace Tables

/-- The tables of distinct pairs **hold** them. -/
theorem hold_ofPairs {training : List (Key × Key)} (h : training.Nodup)
    (heldOut : List (Key × Key)) : (ofPairs training heldOut).Hold training := by
  have hrowOfUser : ∀ u, u ≠ .missing → (((ofPairs training heldOut).userItems.get? u).getD [])
      = (training.filter fun p => p.1 = u).map Prod.snd := by
    intro u hu
    rw [ofPairs, getD_grouped, List.filter_filter]
    refine congrArg (List.map Prod.snd) (List.filter_congr fun p _ => ?_)
    by_cases hp : p.1 = u
    · simp [hp, hu]
    · simp [hp]
  have hrowOfItem : ∀ i, (((ofPairs training heldOut).itemUsers.get? i).getD [])
      = (training.filter fun p => p.2 = i).map Prod.fst := by
    intro i
    rw [ofPairs, getD_grouped, List.filter_map, List.map_map]
    rfl
  have hswap : Function.Injective fun p : Key × Key => (p.2, p.1) := by
    rintro ⟨a, b⟩ ⟨c, d⟩ heq
    obtain ⟨h₁, h₂⟩ := Prod.mk.inj heq
    exact Prod.ext h₂ h₁
  refine ⟨fun u => ?_, fun i => ?_, hrowOfUser, hrowOfItem, fun u i hu => ⟨?_, ?_⟩⟩
  · rw [users, ofPairs, keys_grouped, mem_distinct, List.mem_map]
    constructor
    · rintro ⟨p, hp, rfl⟩
      obtain ⟨hmem, hmissing⟩ := List.mem_filter.1 hp
      exact ⟨of_decide_eq_true hmissing, p.2, hmem⟩
    · rintro ⟨hmissing, i, hmem⟩
      exact ⟨(u, i), List.mem_filter.2 ⟨hmem, decide_eq_true hmissing⟩, rfl⟩
  · rw [items, ofPairs, keys_grouped, mem_distinct, List.map_map, List.mem_map]
    constructor
    · rintro ⟨p, hp, rfl⟩
      exact ⟨p.1, hp⟩
    · rintro ⟨u, hmem⟩
      exact ⟨(u, i), hmem, rfl⟩
  · rw [hrowOfUser u hu, ← weightsOf_eq_map_filter, count_weightsOf, h.count]
  · rw [ofPairs, getD_grouped, ← weightsOf_eq_map_filter, count_weightsOf,
      List.count_map_of_injective training _ hswap (u, i), h.count]

/-- The row of a user lists the items of **the user's training pairs**. -/
theorem Hold.mem_row {t : Tables} {training : List (Key × Key)} (h : t.Hold training) {u : Key}
    (hu : u ≠ .missing) (i : Key) : i ∈ (t.userItems.get? u).getD [] ↔ (u, i) ∈ training := by
  rw [← List.count_pos_iff, (h.once u i hu).1]
  split
  · next hmem => exact iff_of_true Nat.one_pos hmem
  · next hmem => exact iff_of_false (Nat.lt_irrefl 0) hmem

/-- The column of an item lists the users of **the item's training pairs**. -/
theorem Hold.mem_column {t : Tables} {training : List (Key × Key)} (h : t.Hold training) {u : Key}
    (hu : u ≠ .missing) (i : Key) : u ∈ (t.itemUsers.get? i).getD [] ↔ (u, i) ∈ training := by
  rw [← List.count_pos_iff, (h.once u i hu).2]
  split
  · next hmem => exact iff_of_true Nat.one_pos hmem
  · next hmem => exact iff_of_false (Nat.lt_irrefl 0) hmem

/-- The places of a table **number its keys**. -/
theorem isNumbering_places {ν : Type} (t : Table Key ν) : IsNumbering (places t) t.keys where
  fst_eq := List.zipIdx_map_fst 0 t.keys
  snd_eq := by rw [places, List.zipIdx_map_snd, List.range_eq_range']
  nodup := t.nodup_keys

/-- The matrix of tables that hold some pairs is **one at the places of a pair**, and zero at all
others. -/
theorem matrix_of_hold {t : Tables} {training : List (Key × Key)} (h : t.Hold training)
    {u i : Key} {r c : ℕ} (hu : (u, r) ∈ places t.userItems) (hi : (i, c) ∈ places t.itemUsers) :
    ∃ row : Vec α t.items.length, t.matrix[r]? = some row ∧
      row[c]? = some (if (u, i) ∈ training then 1 else 0) := by
  have hkey : t.userItems.keys[r]? = some u := List.mem_zipIdx_iff_getElem?.1 hu
  have hitem : t.items[c]? = some i := List.mem_zipIdx_iff_getElem?.1 hi
  rw [Table.keys, List.getElem?_map, Option.map_eq_some_iff] at hkey
  obtain ⟨e, he, rfl⟩ := hkey
  have hrow : (t.userItems.get? e.1).getD [] = e.2 := by
    rw [Table.get?_of_mem_entries (List.mem_of_getElem? he)]
    rfl
  have hmissing : e.1 ≠ .missing :=
    ((h.users e.1).1 (List.mem_map_of_mem (List.mem_of_getElem? he))).1
  have hcount := (h.once e.1 i hmissing).1
  rw [hrow] at hcount
  obtain ⟨hc, rfl⟩ := List.getElem?_eq_some_iff.1 hitem
  refine ⟨Vector.ofFn fun j : Fin t.items.length => addUp (e.2.count t.items[j]), ?_, ?_⟩
  · rw [matrix, List.getElem?_map, Table.values, List.getElem?_map, he]
    rfl
  · rw [Vector.getElem?_eq_getElem hc, Vector.getElem_ofFn]
    simp only [Fin.getElem_fin, hcount]
    split <;> rfl

end Tables

/-- The tables that a log gives are those of **the training side of its pairs**: no pair is on both
sides or twice on one, none has a missing item, and the users are those of the log. -/
structure Frame.Deals (f : Frame α) (s : Selection α) (t : Tables)
    (training : List (Key × Key)) : Prop where
  eq_ofPairs : t = Tables.ofPairs training t.heldOut
  nodup : (training ++ t.heldOut).Nodup
  item_ne : ∀ p ∈ training ++ t.heldOut, p.2 ≠ .missing
  user_mem : ∀ p ∈ training ++ t.heldOut, ∃ users, f.column s.userColumn = .ok users ∧
    p.1 ∈ users.map Setting.key

/-- A log that gives tables **deals its pairs**. -/
theorem Frame.exists_deals [Machine] {f : Frame α} {s : Selection α} {t : Tables}
    (h : Tables.ofFrame f s = .ok t) : ∃ training, f.Deals s t training := by
  obtain ⟨pairs, hpairs, h⟩ := bind_eq_ok_iff.1 h
  obtain ⟨enough, -, h⟩ := bind_eq_ok_iff.1 h
  obtain ⟨seed, -, h⟩ := bind_eq_ok_iff.1 h
  obtain ⟨source, -, h⟩ := bind_eq_ok_iff.1 h
  obtain ⟨share, -, h⟩ := bind_eq_ok_iff.1 h
  rw [split, divide_units] at h
  let side : ℕ → Bool := fun k => Scalar.lt (source.unit k) share
  let wanted := distinct (popular enough pairs)
  have hone : s.isOneColumn = false := by
    by_contra hne
    rw [Bool.not_eq_false] at hne
    simp only [hne] at h
    cases h
  simp only [hone] at h
  obtain rfl : Tables.ofPairs (dealt (fun k => !side k) wanted) (dealt side wanted) = t :=
    Except.ok.inj h
  have hperm := dealt_append_perm side wanted
  have hmem : ∀ p ∈ dealt (fun k => !side k) wanted ++ dealt side wanted, p ∈ pairs ∧
      p.2 ≠ .missing := by
    intro p hp
    have hpopular := mem_distinct.1 (hperm.mem_iff.1 hp)
    rw [popular_eq_filter, List.mem_filter, Bool.and_eq_true_iff, decide_eq_true_iff] at hpopular
    exact ⟨hpopular.1, hpopular.2.1⟩
  refine ⟨dealt (fun k => !side k) wanted, rfl, hperm.nodup_iff.2 (nodup_distinct _),
    fun p hp => (hmem p hp).2, fun p hp => ?_⟩
  obtain ⟨early, -, hpairs⟩ := bind_eq_ok_iff.1 hpairs
  obtain ⟨items, -, hpairs⟩ := bind_eq_ok_iff.1 hpairs
  obtain ⟨users, husers, hpairs⟩ := bind_eq_ok_iff.1 hpairs
  obtain rfl := Except.ok.inj hpairs
  obtain ⟨⟨q, b⟩, hq, rfl⟩ := List.mem_map.1 (hmem p hp).1
  have hzip := (List.of_mem_zip (List.mem_of_mem_filter hq)).1
  exact ⟨users, husers, (List.of_mem_zip hzip).1⟩

/-- A log that tables can be taken from has **a column of users**, and rows before the cut-off. -/
theorem Frame.exists_columns [Machine] {f : Frame α} {s : Selection α} {t : Tables}
    (h : Tables.ofFrame f s = .ok t) :
    (∃ mask, s.early f = .ok mask) ∧ ∃ users, f.column s.userColumn = .ok users := by
  obtain ⟨pairs, hpairs, -⟩ := bind_eq_ok_iff.1 h
  obtain ⟨mask, hmask, hpairs⟩ := bind_eq_ok_iff.1 hpairs
  obtain ⟨items, -, hpairs⟩ := bind_eq_ok_iff.1 hpairs
  obtain ⟨users, husers, -⟩ := bind_eq_ok_iff.1 hpairs
  exact ⟨⟨mask, hmask⟩, users, husers⟩

/-- Where **no user is missing** in a log, none is among its pairs. -/
theorem Frame.Deals.user_ne {f : Frame α} {s : Selection α} {t : Tables}
    {training : List (Key × Key)} (h : f.Deals s t training)
    (hpresent : ∀ users, f.column s.userColumn = .ok users → ∀ u ∈ users, u.key ≠ .missing) :
    ∀ p ∈ training ++ t.heldOut, p.1 ≠ .missing := by
  intro p hp
  obtain ⟨users, husers, hmem⟩ := h.user_mem p hp
  obtain ⟨u, hu, heq⟩ := List.mem_map.1 hmem
  rw [← heq]
  exact hpresent users husers u hu

/-- **The split of a log is a partition, and the tables agree on it.** The wanted pairs, in order of
first appearance, are each held out or trained on, as the draws of their places say. A pair that is
trained on is listed once under its user and once under its item; the places of users and of items
number them in the order of the tables; and the matrix is one at the places of the pairs that are
trained on, and zero elsewhere. -/
theorem ofFrame_partition [Machine] {s : Selection α} {f : Frame α} (r : s.Reading f) :
    ∃ t pairs training, Tables.ofFrame f s = .ok t ∧
      r.Lists pairs ∧ r.Splits pairs training t.heldOut ∧ t.Hold training ∧
      IsNumbering (Tables.places t.userItems) t.users ∧
      IsNumbering (Tables.places t.itemUsers) t.items ∧
      (t.matrix : List (Vec α t.items.length)).length = t.users.length ∧
      ∀ u i row column, (u, row) ∈ Tables.places t.userItems →
        (i, column) ∈ Tables.places t.itemUsers →
        ∃ v : Vec α t.items.length, t.matrix[row]? = some v ∧
          v[column]? = some (if (u, i) ∈ training then 1 else 0) := by
  obtain ⟨rows, hrows, hshows⟩ := r.exists_rows
  obtain ⟨seed, hseed, hsource⟩ := bind_eq_ok_iff.1 r.seed
  have hlists := r.lists_distinct hshows
  have hsplits := r.splits_dealt hlists.nodup
  have htraining := hsplits.training_sublist.nodup hlists.nodup
  have hhold := fun heldOut => Tables.hold_ofPairs htraining heldOut
  refine ⟨_, _, _, ?_, hlists, hsplits, hhold _, Tables.isNumbering_places _,
    Tables.isNumbering_places _, ?_, fun u i row column hu hi =>
      Tables.matrix_of_hold (hhold _) hu hi⟩
  · refine bind_eq_ok_iff.2 ⟨_, hrows, bind_eq_ok_iff.2 ⟨_, r.enough_eq_ok, ?_⟩⟩
    refine bind_eq_ok_iff.2 ⟨seed, hseed, bind_eq_ok_iff.2 ⟨r.source, hsource, ?_⟩⟩
    refine bind_eq_ok_iff.2 ⟨r.share, r.ratio, ?_⟩
    rw [split, divide_units]
    simp only [r.separate]
    rfl
  · rw [Tables.matrix, List.length_map, Tables.users, Table.values, Table.keys, List.length_map,
      List.length_map]

/-- A log of five rows, cut off before the last one. The fourth has no item, so its user is not
listed; the third has no user, and its pair is one of two that are split. -/
theorem ofFrame_partition_five_rows :
    letI := Spelling.silent
    let f : Frame ℝ := .ofColumns
      [("reviewerID", [.text "u", .text "u", .absent, .text "v", .text "u"]),
        ("asin", [.text "a", .text "a", .text "a", .absent, .text "b"]),
        ("unixReviewTime", [.integer 1, .integer 2, .integer 3, .integer 4, .integer 5])]
    let s : Selection ℝ := { Selection.standard with cutoff := .integer 5, share := .real (1 / 2) }
    ∃ r : s.Reading f, ∃ t pairs training, Tables.ofFrame f s = .ok t ∧
      r.Lists pairs ∧ r.Splits pairs training t.heldOut ∧ t.Hold training ∧
      ∀ p, p ∈ pairs ↔ p = (.text "u", .text "a") ∨ p = (.missing, .text "a") := by
  let _ := Spelling.silent
  intro f s
  let times : List (Setting ℝ) := [.integer 1, .integer 2, .integer 3, .integer 4, .integer 5]
  have hbelow : ∀ n : ℤ, IsBelow times (.integer n) (.integer 5) ↔ n < 5 := fun n =>
    (isBelow_iff_precedes _ _ _).trans (Setting.precedes_integer n 5)
  let r : s.Reading f :=
    { users := [.text "u", .text "u", .absent, .text "v", .text "u"]
      items := [.text "a", .text "a", .text "a", .absent, .text "b"]
      times := times
      least := Scalar.ofInt 1
      share := 1 / 2
      source := ⟨31, 0⟩
      rectangular := Frame.length_ofColumns _
      userColumn := rfl
      itemColumn := rfl
      timeColumn := fun _ => rfl
      comparable := fun _ => ⟨[true, true, true, true, false], rfl⟩
      separate := rfl
      minUsers := rfl
      ratio := rfl
      seed := rfl }
  have hshows : ∀ k p, r.Shows k p ↔ (k = 0 ∨ k = 1) ∧ p = (.text "u", .text "a") ∨
      k = 2 ∧ p = (.missing, .text "a") ∨ k = 3 ∧ p = (.text "v", .missing) := by
    intro k p
    rcases k with _ | _ | _ | _ | _ | k <;>
      simp [Selection.Reading.Shows, Selection.Reading.IsEarly, r, s, times, hbelow, Setting.key]
  have hshown : ∀ p, (∃ k, r.Shows k p) ↔
      p = (.text "u", .text "a") ∨ p = (.missing, .text "a") ∨ p = (.text "v", .missing) := by
    intro p
    simp [hshows, exists_or]
  have husers : {u | u ≠ Key.missing ∧ ∃ k, r.Shows k (u, .text "a")} = {.text "u"} := by
    ext u
    rw [Set.mem_ofPred_eq, hshown, Set.mem_singleton_iff]
    constructor
    · rintro ⟨hu, h | h | h⟩
      · exact congrArg Prod.fst h
      · exact absurd (congrArg Prod.fst h) hu
      · cases h
    · rintro rfl
      exact ⟨by decide, .inl rfl⟩
  obtain ⟨t, pairs, training, ht, hlists, hsplits, hhold, -⟩ := ofFrame_partition r
  refine ⟨r, t, pairs, training, ht, hlists, hsplits, hhold, fun p => ?_⟩
  rw [hlists.mem, Selection.Reading.IsWanted, hshown]
  constructor
  · rintro ⟨rfl | rfl | rfl, hitem, -⟩
    · exact .inl rfl
    · exact .inr rfl
    · exact absurd rfl hitem
  · have hleast : Scalar.le r.least (Scalar.ofNat
        {u | u ≠ Key.missing ∧ ∃ k, r.Shows k (u, .text "a")}.ncard) = true := by
      have hone : r.least = 1 := (Scalar.ofInt_real 1).trans Int.cast_one
      rw [husers, Set.ncard_singleton, hone, Scalar.le_real, Scalar.ofNat_real, Nat.cast_one]
    rintro (rfl | rfl)
    · exact ⟨.inl rfl, by decide, hleast⟩
    · exact ⟨.inr (.inl rfl), by decide, hleast⟩

end CoEmbed
