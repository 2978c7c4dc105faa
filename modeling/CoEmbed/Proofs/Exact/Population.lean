import CoEmbed.Proofs.Exact.Shift

/-!
# Populations

Which items are neighbours, and with what weights, depends on the users only through the numbers of
users that two items have in common, and on these only up to a factor.

* `Vec.owned` — the items that a user has.
* `Proportional`, `sppmiRows_of_proportional` — populations with the same neighbours.
* `proportional_perm`, `proportional_filter`, `proportional_forall₂`, `proportional_replicate` —
  users in another order, users with one item, other positive entries, users many times over.
* `Vec.permuted`, `related_permuted`, `association_permuted` — columns in another order.
* `IsLast`, `mem_row_of_isLast` — the place of an item whose row is kept.
* `sppmiRows_symmetries` — all of these.

## Item convention

Of an item that is listed twice the row of the last place with any neighbours is kept, and with the
columns in another order another of its places may be that one.
-/

namespace CoEmbed

open Finset

variable {m : ℕ}

/-- The **items that a user has**: those with a positive entry. -/
noncomputable def Vec.owned (u : Vec ℝ m) : Finset (Fin m) := univ.filter fun i => 0 < u.entry i

theorem Vec.mem_owned {u : Vec ℝ m} {i : Fin m} : i ∈ u.owned ↔ 0 < u.entry i := by
  rw [owned, mem_filter, and_iff_right (mem_univ i)]

/-- The users who have both items are counted by **what users have**. -/
theorem commonUsers_eq_countP (users : List (Vec ℝ m)) (i j : Fin m) :
    commonUsers users i j = users.countP fun u => decide (i ∈ u.owned ∧ j ∈ u.owned) := by
  simp only [commonUsers, Vec.mem_owned]

/-! ### Counts up to a factor -/

/-- Two populations are **proportional**: multiples of the numbers of users that two different items
have in common agree. -/
def Proportional (a b : ℕ) (users users' : List (Vec ℝ m)) : Prop :=
  ∀ i j, j ≠ i → a * commonUsers users i j = b * commonUsers users' i j

namespace Proportional

variable {a b : ℕ} {users users' : List (Vec ℝ m)} (h : Proportional a b users users')

include h

theorem partners_eq (i : Fin m) : a * partners users i = b * partners users' i := by
  rw [partners, partners, mul_sum, mul_sum]
  exact sum_congr rfl fun j hj => h i j (ne_of_mem_erase hj)

theorem pairs_eq : a * pairs users = b * pairs users' := by
  rw [pairs, pairs, mul_sum, mul_sum]
  exact sum_congr rfl fun i _ => h.partners_eq i

theorem common_mul_pairs {i j : Fin m} (hij : j ≠ i) :
    a * a * (commonUsers users i j * pairs users : ℝ)
      = b * b * (commonUsers users' i j * pairs users') := by
  have hcommon : (a * commonUsers users i j : ℝ) = b * commonUsers users' i j := by
    exact_mod_cast h i j hij
  have hall : (a * pairs users : ℝ) = b * pairs users' := by exact_mod_cast h.pairs_eq
  rw [mul_mul_mul_comm, hcommon, hall, mul_mul_mul_comm]

theorem partners_mul_partners (i j : Fin m) :
    a * a * (partners users i * partners users j : ℝ)
      = b * b * (partners users' i * partners users' j) := by
  have hpartners : ∀ i, (a * partners users i : ℝ) = b * partners users' i := fun i => by
    exact_mod_cast h.partners_eq i
  rw [mul_mul_mul_comm, hpartners, hpartners, mul_mul_mul_comm]

/-- In proportional populations **the same items** are related. -/
theorem related_iff (ha : 0 < a) (hb : 0 < b) (s : ℝ) (i j : Fin m) :
    Related users s i j ↔ Related users' s i j := by
  have ha' : (0 : ℝ) < a * a := by positivity
  have hb' : (0 : ℝ) < b * b := by positivity
  refine and_congr_right fun hij => ?_
  rw [← mul_lt_mul_iff_right₀ ha', mul_left_comm, h.common_mul_pairs hij,
    h.partners_mul_partners i j, mul_left_comm, mul_lt_mul_iff_right₀ hb']

/-- Items weigh **the same** in proportional populations. -/
theorem association_eq (ha : 0 < a) (hb : 0 < b) (s : ℝ) {i j : Fin m} (hij : j ≠ i) :
    association users s i j = association users' s i j := by
  have ha' : (a * a : ℝ) ≠ 0 := by positivity
  have hb' : (b * b : ℝ) ≠ 0 := by positivity
  rw [association, association, ← mul_div_mul_left _ _ ha', h.common_mul_pairs hij,
    h.partners_mul_partners i j, mul_div_mul_left _ _ hb']

end Proportional

/-- Matrices that associate the same items, with the same weights, are **equal**. -/
theorem Associates.eq {users users' : List (Vec ℝ m)} {s : ℝ} {M M' : Mat ℝ m m}
    (h : Associates users M s) (h' : Associates users' M' s)
    (hrelated : ∀ i j, Related users s i j ↔ Related users' s i j)
    (hweight : ∀ i j, Related users s i j → association users s i j = association users' s i j) :
    M = M' := by
  have hentry : ∀ i j, M.entry i j = M'.entry i j := by
    intro i j
    by_cases hij : Related users s i j
    · rw [h.related i j hij, h'.related i j ((hrelated i j).1 hij), hweight i j hij]
    · rw [h.unrelated i j hij, h'.unrelated i j (mt (hrelated i j).2 hij)]
  exact Vector.ext fun i hi => Vector.ext fun j hj => hentry ⟨i, hi⟩ ⟨j, hj⟩

/-- Without a number that a logarithm can be taken of, only **the total of the counts** matters. -/
theorem sppmi_of_not_measured [Spelling] {users users' : List (Vec ℝ m)} {shift : Setting ℝ}
    {f : Fault} (hshift : shift.measured = .error f) (h : pairs users = 0 ↔ pairs users' = 0) :
    sppmi (cooccurrence users) shift = sppmi (cooccurrence users') shift := by
  have hzero : ∀ users : List (Vec ℝ m),
      Scalar.eq (entrySum (cooccurrence users)) 0 = true ↔ pairs users = 0 := by
    intro users
    rw [Scalar.eq_real, entrySum_cooccurrence, Nat.cast_eq_zero]
  have hfits : ∀ users : List (Vec ℝ m), fits (cooccurrence users) = true := by simp [fits]
  have hfault : ∀ next : ℝ → Except Fault (Mat ℝ m m), (Except.error f >>= next) = .error f :=
    fun _ => rfl
  rw [sppmi, sppmi, hshift]
  simp only [hfits, hzero, h, hfault]

/-- **Proportional populations have the same neighbours**, whatever the shift. -/
theorem sppmiRows_of_proportional [Spelling] {a b : ℕ} {users users' : List (Vec ℝ m)}
    (h : Proportional a b users users') (ha : 0 < a) (hb : 0 < b) (items : List Key)
    (shift : Setting ℝ) : sppmiRows users items shift = sppmiRows users' items shift := by
  suffices hmatrix : sppmi (cooccurrence users) shift = sppmi (cooccurrence users') shift by
    rw [sppmiRows, sppmiRows, hmatrix]
  cases hshift : shift.measured with
  | error f =>
      refine sppmi_of_not_measured hshift ?_
      have hall := h.pairs_eq
      constructor
      · intro hnone
        rw [hnone, mul_zero] at hall
        exact (Nat.mul_eq_zero.1 hall.symm).resolve_left hb.ne'
      · intro hnone
        rw [hnone, mul_zero] at hall
        exact (Nat.mul_eq_zero.1 hall).resolve_left ha.ne'
  | ok s =>
      have hnumber := Setting.number_of_measured hshift
      rcases lt_or_ge 0 s with hs | hs
      · obtain ⟨M, hM, hassoc⟩ := sppmi_cooccurrence users hshift hs
        obtain ⟨M', hM', hassoc'⟩ := sppmi_cooccurrence users' hshift hs
        rw [hM, hM', hassoc.eq hassoc' (h.related_iff ha hb s) fun i j hij =>
          h.association_eq ha hb s hij.1]
      · -- such a shift is refused before any count is looked at
        have hlow : shift.atMost 0 = .ok true := by
          rw [Setting.atMost, hnumber]
          exact congrArg Except.ok (Scalar.le_real.2 hs)
        have hrefused : ∀ users : List (Vec ℝ m), sppmi (cooccurrence users) shift
            = .error (.refused (.rowShift shift.shown)) := by
          intro users
          rw [sppmi, hlow]
          exact rfl
        rw [hrefused, hrefused]

/-! ### Other users -/

section

variable {users users' : List (Vec ℝ m)}

/-- Users in **another order**. -/
theorem proportional_perm (h : users'.Perm users) : Proportional 1 1 users' users := by
  intro i j _
  rw [commonUsers, commonUsers, h.countP_eq]

/-- Users with **one item at most** do not count. -/
theorem commonUsers_filter (users : List (Vec ℝ m)) {i j : Fin m} (h : j ≠ i) :
    commonUsers (users.filter fun u => decide (1 < u.owned.card)) i j = commonUsers users i j := by
  rw [commonUsers_eq_countP, commonUsers_eq_countP, List.countP_filter]
  refine List.countP_congr fun u _ => ?_
  simp only [Bool.and_eq_true, decide_eq_true_eq, and_iff_left_iff_imp]
  exact fun hboth => one_lt_card.2 ⟨i, hboth.1, j, hboth.2, h.symm⟩

/-- Users with one item at most may be **added and removed**. -/
theorem proportional_filter (h : (users'.filter fun u => decide (1 < u.owned.card))
    = users.filter fun u => decide (1 < u.owned.card)) : Proportional 1 1 users' users := by
  intro i j hij
  rw [← commonUsers_filter users' hij, h, commonUsers_filter users hij]

/-- Users may have **other positive entries**, for the same items. -/
theorem proportional_forall₂ (h : List.Forall₂ (fun u' u => u'.owned = u.owned) users' users) :
    Proportional 1 1 users' users := by
  intro i j _
  rw [commonUsers_eq_countP, commonUsers_eq_countP]
  induction h with
  | nil => rfl
  | cons hu _ ih =>
      rw [one_mul, one_mul] at ih
      rw [List.countP_cons, List.countP_cons, ih, hu]

/-- All users may come **many times over**. -/
theorem proportional_replicate (n : ℕ) (users : List (Vec ℝ m)) :
    Proportional 1 n (List.replicate n users).flatten users := by
  intro i j _
  rw [one_mul, commonUsers, commonUsers, List.countP_flatten, List.map_replicate,
    List.sum_replicate, smul_eq_mul]

end

/-! ### Columns in another order -/

/-- The entries of a vector **in another order**. -/
def Vec.permuted {α : Type} (σ : Equiv.Perm (Fin m)) (u : Vec α m) : Vec α m :=
  Vector.ofFn fun i => u.entry (σ i)

section

variable (σ : Equiv.Perm (Fin m)) (users : List (Vec ℝ m))

theorem Vec.entry_permuted {α : Type} (u : Vec α m) (i : Fin m) :
    (Vec.permuted σ u).entry i = u.entry (σ i) := by
  rw [permuted, Vec.entry_eq, Fin.getElem_fin, Vector.getElem_ofFn]

theorem commonUsers_permuted (i j : Fin m) :
    commonUsers (users.map (Vec.permuted σ)) i j = commonUsers users (σ i) (σ j) := by
  rw [commonUsers, commonUsers, List.countP_map]
  simp only [Function.comp_def, Vec.entry_permuted]

theorem partners_permuted (i : Fin m) :
    partners (users.map (Vec.permuted σ)) i = partners users (σ i) := by
  refine sum_equiv σ (fun j => ?_) fun j _ => commonUsers_permuted σ users i j
  rw [mem_erase, mem_erase, σ.injective.ne_iff]
  exact and_congr_right fun _ => iff_of_true (mem_univ j) (mem_univ (σ j))

theorem pairs_permuted : pairs (users.map (Vec.permuted σ)) = pairs users := by
  exact (sum_congr rfl fun i _ => partners_permuted σ users i).trans (Equiv.sum_comp σ _)

/-- Columns in another order are related **as they have been**. -/
theorem related_permuted (s : ℝ) (i j : Fin m) :
    Related (users.map (Vec.permuted σ)) s i j ↔ Related users s (σ i) (σ j) := by
  rw [Related, Related, partners_permuted, partners_permuted, commonUsers_permuted, pairs_permuted,
    σ.injective.ne_iff]

theorem association_permuted (s : ℝ) (i j : Fin m) :
    association (users.map (Vec.permuted σ)) s i j = association users s (σ i) (σ j) := by
  rw [association, association, partners_permuted, partners_permuted, commonUsers_permuted,
    pairs_permuted]

end

/-- The **last place** of an item that is related to any other place. -/
def IsLast (users : List (Vec ℝ m)) (s : ℝ) (columns : Fin m → Key) (i : Fin m) : Prop :=
  (∃ j, Related users s i j) ∧ ∀ l, i < l → columns l = columns i → ¬ ∃ j, Related users s l j

/-- An item that is related to any other has **a last place**. -/
theorem exists_isLast {users : List (Vec ℝ m)} {s : ℝ} {columns : Fin m → Key} {k : Key}
    (h : ∃ i j, columns i = k ∧ Related users s i j) :
    ∃ i, columns i = k ∧ IsLast users s columns i := by
  classical
  let places : Finset (Fin m) := univ.filter fun i => columns i = k ∧ ∃ j, Related users s i j
  have hplaces : places.Nonempty := by
    obtain ⟨i, j, hi, hij⟩ := h
    exact ⟨i, mem_filter.2 ⟨mem_univ i, hi, j, hij⟩⟩
  obtain ⟨-, hitem, hrelated⟩ := mem_filter.1 (places.max'_mem hplaces)
  refine ⟨places.max' hplaces, hitem, hrelated, fun l hl hsame hother => ?_⟩
  have hlisted : l ∈ places := mem_filter.2 ⟨mem_univ l, hsame.trans hitem, hother⟩
  exact hl.not_ge (places.le_max' l hlisted)

/-- Of an item that is listed once, the **only place** is the last one. -/
theorem IsLast.of_permuted {users : List (Vec ℝ m)} {s : ℝ} {columns : Fin m → Key}
    (σ : Equiv.Perm (Fin m)) {i : Fin m}
    (hitem : ∀ l, columns l = columns (σ i) → l = σ i)
    (h : IsLast (users.map (Vec.permuted σ)) s (columns ∘ σ) i) : IsLast users s columns (σ i) := by
  obtain ⟨⟨j, hj⟩, -⟩ := h
  exact ⟨⟨σ j, (related_permuted σ users s i j).1 hj⟩, fun l hl hsame _ =>
    hl.ne' (hitem l hsame)⟩

section

variable [Spelling] {columns : Fin m → Key} {users : List (Vec ℝ m)} {shift : Setting ℝ} {s : ℝ}

/-- With an item for each column, each place has **the items that are related to it**. -/
theorem sppmiRows_ofFn (columns : Fin m → Key) (users : List (Vec ℝ m))
    (hshift : shift.measured = .ok s) (hs : 0 < s) :
    ∃ rows : Fin m → Row ℝ,
      sppmiRows users (List.ofFn columns) shift
        = .ok (stacked (List.ofFn fun i => (columns i, rows i))) ∧
      ∀ i e, e ∈ rows i ↔
        ∃ j, Related users s i j ∧ e = (columns j, association users s i j) := by
  obtain ⟨items, hlength, rfl⟩ : ∃ (items : List Key) (h : items.length = m),
      columns = fun i => items.get (i.cast h.symm) :=
    ⟨List.ofFn columns, List.length_ofFn, funext fun i => (List.getElem_ofFn _).symm⟩
  subst hlength
  obtain ⟨rows, hrows, hmem⟩ := sppmiRows_eq_stacked items users hshift hs
  refine ⟨rows, ?_, hmem⟩
  rw [List.ofFn_eq_map (f := fun i => (_, rows i))]
  exact (congrArg (fun ks => sppmiRows users ks shift) (List.ofFn_get items)).trans hrows

/-- The row of an item is that of its **last place** with any neighbours. -/
theorem mem_row_of_isLast (hshift : shift.measured = .ok s) (hs : 0 < s) {t : Table Key (Row ℝ)}
    (ht : sppmiRows users (List.ofFn columns) shift = .ok t) {i : Fin m}
    (h : IsLast users s columns i) (e : Key × ℝ) : e ∈ (t.get? (columns i)).getD [] ↔
      ∃ j, Related users s i j ∧ e = (columns j, association users s i j) := by
  obtain ⟨rows, hrows, hmem⟩ := sppmiRows_ofFn columns users hshift hs
  obtain rfl := Except.ok.inj (ht.symm.trans hrows)
  obtain ⟨⟨j, hj⟩, hlast⟩ := h
  have hrow : rows i ≠ [] := List.ne_nil_of_mem ((hmem i _).2 ⟨j, hj, rfl⟩)
  let listed : List (Key × Row ℝ) := List.ofFn fun i => (columns i, rows i)
  have hi : i.val < listed.length := i.isLt.trans_eq List.length_ofFn.symm
  have hsplit : listed = listed.take i.val ++ (columns i, rows i) :: listed.drop (i.val + 1) := by
    have hhere : listed[i.val] = (columns i, rows i) := List.getElem_ofFn hi
    rw [← hhere, List.getElem_cons_drop, List.take_append_drop]
  have hrest : ∀ row', (columns i, row') ∈ listed.drop (i.val + 1) → row' = [] := by
    intro row' hrow'
    obtain ⟨l, hl, heq⟩ := List.mem_iff_getElem.1 hrow'
    rw [List.getElem_drop, List.getElem_ofFn] at heq
    obtain ⟨hsame, rfl⟩ := Prod.mk.inj heq
    refine List.eq_nil_iff_forall_not_mem.2 fun e he => ?_
    obtain ⟨j', hj', -⟩ := (hmem _ e).1 he
    exact hlast _ (Fin.lt_def.2 (by simp only; omega)) hsame ⟨j', hj'⟩
  have hkept := get?_stacked_of_rest (listed.take i.val) hrow hrest
  rw [← hsplit] at hkept
  rw [hkept, Option.getD_some, hmem]

/-- An item has a row if **one of its places** is related to another place. -/
theorem mem_sppmiRows_ofFn (hshift : shift.measured = .ok s) (hs : 0 < s) {t : Table Key (Row ℝ)}
    (ht : sppmiRows users (List.ofFn columns) shift = .ok t) {k : Key} :
    k ∈ t ↔ ∃ i j, columns i = k ∧ Related users s i j := by
  obtain ⟨rows, hrows, hmem⟩ := sppmiRows_ofFn columns users hshift hs
  obtain rfl := Except.ok.inj (ht.symm.trans hrows)
  rw [mem_stacked]
  constructor
  · rintro ⟨row, hlisted, hne⟩
    obtain ⟨i, heq⟩ := (List.mem_ofFn' _ _).1 hlisted
    obtain ⟨hitem, rfl⟩ := Prod.mk.inj heq
    obtain ⟨e, he⟩ := List.exists_mem_of_ne_nil _ hne
    obtain ⟨j, hj, -⟩ := (hmem i e).1 he
    exact ⟨i, j, hitem, hj⟩
  · rintro ⟨i, j, rfl, hj⟩
    exact ⟨rows i, (List.mem_ofFn' _ _).2 ⟨i, rfl⟩,
      List.ne_nil_of_mem ((hmem i _).2 ⟨j, hj, rfl⟩)⟩

/-- With the columns in another order **the same items** have rows. -/
theorem mem_of_permuted (hshift : shift.measured = .ok s) (hs : 0 < s) (σ : Equiv.Perm (Fin m))
    {t t' : Table Key (Row ℝ)} (ht : sppmiRows users (List.ofFn columns) shift = .ok t)
    (ht' : sppmiRows (users.map (Vec.permuted σ)) (List.ofFn (columns ∘ σ)) shift = .ok t')
    (k : Key) : k ∈ t' ↔ k ∈ t := by
  rw [mem_sppmiRows_ofFn hshift hs ht, mem_sppmiRows_ofFn hshift hs ht']
  constructor
  · rintro ⟨i, j, hi, hij⟩
    exact ⟨σ i, σ j, hi, (related_permuted σ users s i j).1 hij⟩
  · rintro ⟨i, j, rfl, hij⟩
    refine ⟨σ.symm i, σ.symm j, congrArg columns (σ.apply_symm_apply i), ?_⟩
    rw [related_permuted, σ.apply_symm_apply, σ.apply_symm_apply]
    exact hij

/-- With the columns in another order an item has **the same neighbours**, if the last of its places
that has any is the same column. -/
theorem mem_row_of_permuted (hshift : shift.measured = .ok s) (hs : 0 < s) (σ : Equiv.Perm (Fin m))
    {t t' : Table Key (Row ℝ)} (ht : sppmiRows users (List.ofFn columns) shift = .ok t)
    (ht' : sppmiRows (users.map (Vec.permuted σ)) (List.ofFn (columns ∘ σ)) shift = .ok t')
    {k : Key} (hlast : ∀ i, columns (σ i) = k →
      IsLast (users.map (Vec.permuted σ)) s (columns ∘ σ) i → IsLast users s columns (σ i))
    (e : Key × ℝ) : e ∈ (t'.get? k).getD [] ↔ e ∈ (t.get? k).getD [] := by
  by_cases hk : k ∈ t'
  · obtain ⟨i, hitem, hi⟩ := exists_isLast ((mem_sppmiRows_ofFn hshift hs ht').1 hk)
    obtain rfl : columns (σ i) = k := hitem
    have hrow' := mem_row_of_isLast hshift hs ht' hi e
    rw [Function.comp_apply] at hrow'
    rw [hrow', mem_row_of_isLast hshift hs ht (hlast i rfl hi)]
    simp only [related_permuted, association_permuted, Function.comp_apply]
    exact (σ.surjective.exists (p := fun j => Related users s (σ i) j ∧
      e = (columns j, association users s (σ i) j))).symm
  · rw [Table.get?_eq_none_iff.2 hk,
      Table.get?_eq_none_iff.2 (mt (mem_of_permuted hshift hs σ ht ht' k).2 hk)]

end

/-- **Whom an item has for neighbours** does not depend on the order of the users, on users with one
item at most, on how large positive entries are, or on how many times over all users come; this
holds of any items and any shift, faults included. With one item for each column, and columns and
items put into another order, the same items have rows, and each item has the same neighbours, with
the same weights, whose last place with any neighbours is the same column; so has every item that is
listed once. -/
theorem sppmiRows_symmetries [Spelling] (users : List (Vec ℝ m)) (items : List Key)
    (shift : Setting ℝ) :
    (∀ users', users'.Perm users →
      sppmiRows users' items shift = sppmiRows users items shift) ∧
    (∀ users', (users'.filter fun u => decide (1 < u.owned.card))
        = (users.filter fun u => decide (1 < u.owned.card)) →
      sppmiRows users' items shift = sppmiRows users items shift) ∧
    (∀ users', List.Forall₂ (fun u' u => u'.owned = u.owned) users' users →
      sppmiRows users' items shift = sppmiRows users items shift) ∧
    (∀ n, 0 < n → sppmiRows (List.replicate n users).flatten items shift
      = sppmiRows users items shift) ∧
    ∀ s, shift.measured = .ok s → 0 < s → ∀ columns : Fin m → Key, items = List.ofFn columns →
      ∀ σ : Equiv.Perm (Fin m), ∃ t t', sppmiRows users items shift = .ok t ∧
        sppmiRows (users.map (Vec.permuted σ)) (List.ofFn (columns ∘ σ)) shift = .ok t' ∧
        (∀ k, k ∈ t' ↔ k ∈ t) ∧
        (∀ k, (∀ i, columns (σ i) = k →
            IsLast (users.map (Vec.permuted σ)) s (columns ∘ σ) i → IsLast users s columns (σ i)) →
          ∀ e, e ∈ (t'.get? k).getD [] ↔ e ∈ (t.get? k).getD []) ∧
        ∀ i, (∀ l, columns l = columns i → l = i) →
          ∀ e, e ∈ (t'.get? (columns i)).getD [] ↔ e ∈ (t.get? (columns i)).getD [] := by
  refine ⟨fun users' h => ?_, fun users' h => ?_, fun users' h => ?_, fun n hn => ?_, ?_⟩
  · exact sppmiRows_of_proportional (proportional_perm h) one_pos one_pos items shift
  · exact sppmiRows_of_proportional (proportional_filter h) one_pos one_pos items shift
  · exact sppmiRows_of_proportional (proportional_forall₂ h) one_pos one_pos items shift
  · exact sppmiRows_of_proportional (proportional_replicate n users) one_pos hn items shift
  · rintro s hshift hs columns rfl σ
    obtain ⟨rows, ht, -⟩ := sppmiRows_ofFn columns users hshift hs
    obtain ⟨rows', ht', -⟩ :=
      sppmiRows_ofFn (columns ∘ σ) (users.map (Vec.permuted σ)) hshift hs
    refine ⟨_, _, ht, ht', mem_of_permuted hshift hs σ ht ht',
      fun k => mem_row_of_permuted hshift hs σ ht ht', fun i hi =>
        mem_row_of_permuted hshift hs σ ht ht' fun l hl => IsLast.of_permuted σ fun l' hl' => ?_⟩
    rw [hl] at hl'
    rw [hi l' hl', hi (σ l) hl]

/-- The two pairs of items **change places**. -/
def crosswise : Equiv.Perm (Fin 4) := Equiv.addRight 2

/-- Two pairs of items, with their users in another order, one more user with a single item, other
entries, all users three times, and the pairs of items in another order. -/
theorem sppmiRows_symmetries_halves :
    letI := Spelling.silent
    let columns : Fin 4 → Key := ![.text "a", .text "b", .text "c", .text "d"]
    let items : List Key := List.ofFn columns
    let shift : Setting ℝ := .integer 1
    sppmiRows halves.reverse items shift = sppmiRows halves items shift ∧
      sppmiRows (halves ++ [#v[5, 0, 0, 0]]) items shift = sppmiRows halves items shift ∧
      sppmiRows [#v[2, 1, 0, 0], #v[0, 0, 1, 3], #v[0, -1, 1, 1]] items shift
        = sppmiRows halves items shift ∧
      sppmiRows (List.replicate 3 halves).flatten items shift = sppmiRows halves items shift ∧
      ∃ t t', sppmiRows halves items shift = .ok t ∧
        sppmiRows (halves.map (Vec.permuted crosswise)) (List.ofFn (columns ∘ crosswise)) shift
          = .ok t' ∧
        .text "a" ∈ t ∧
        ∀ e, e ∈ (t'.get? (.text "a")).getD [] ↔ e ∈ (t.get? (.text "a")).getD [] := by
  let _ := Spelling.silent
  intro columns items shift
  have hone : shift.measured = .ok 1 := by rw [measured_integer (by decide), Int.cast_one]
  obtain ⟨hperm, hfilter, hentries, hreplicate, hcolumns⟩ :=
    sppmiRows_symmetries halves items shift
  refine ⟨hperm _ (List.reverse_perm halves), hfilter _ ?_, hentries _ ?_,
    hreplicate 3 three_pos, ?_⟩
  · have hsingle : ¬ 1 < (Vec.owned #v[5, 0, 0, 0]).card := by
      rw [not_lt, card_le_one]
      have honly : ∀ i ∈ Vec.owned #v[5, 0, 0, 0], i = 0 := by
        intro i hi
        rw [Vec.mem_owned] at hi
        fin_cases i <;> simp at hi ⊢
      exact fun i hi j hj => (honly i hi).trans (honly j hj).symm
    rw [List.filter_append, List.filter_cons_of_neg (by simpa using hsingle), List.filter_nil,
      List.append_nil]
  · refine .cons ?_ (.cons ?_ (.cons ?_ .nil)) <;>
      · ext i
        rw [Vec.mem_owned, Vec.mem_owned]
        fin_cases i <;> norm_num
  · obtain ⟨t, t', ht, ht', -, -, hrow⟩ := hcolumns 1 hone one_pos columns rfl crosswise
    refine ⟨t, t', ht, ht', ?_, hrow 0 (by decide)⟩
    exact (mem_sppmiRows_ofFn hone one_pos ht).2
      ⟨0, 1, rfl, (related_halves one_pos 0 1).2 (by norm_num [parting])⟩

/-- Of an item that is listed **twice** this does not hold: its last place is in the other pair
after the pairs have changed places, and so it has another neighbour. -/
theorem not_sppmiRows_symmetries_repeated :
    letI := Spelling.silent
    let columns : Fin 4 → Key := ![.text "a", .text "b", .text "a", .text "c"]
    ∃ t t', sppmiRows halves (List.ofFn columns) (.integer 1) = .ok t ∧
      sppmiRows (halves.map (Vec.permuted crosswise)) (List.ofFn (columns ∘ crosswise)) (.integer 1)
        = .ok t' ∧
      .text "c" ∈ ((t.get? (.text "a")).getD []).map Prod.fst ∧
      .text "c" ∉ ((t'.get? (.text "a")).getD []).map Prod.fst := by
  let _ := Spelling.silent
  intro columns
  have hone : (Setting.integer (α := ℝ) 1).measured = .ok 1 := by
    rw [measured_integer (by decide), Int.cast_one]
  obtain ⟨rows, ht, -⟩ := sppmiRows_ofFn columns halves hone one_pos
  obtain ⟨rows', ht', -⟩ :=
    sppmiRows_ofFn (columns ∘ crosswise) (halves.map (Vec.permuted crosswise)) hone one_pos
  have hsecond : Related halves 1 2 3 := (related_halves one_pos 2 3).2 (by norm_num [parting])
  have hfirst : Related halves 1 0 1 := (related_halves one_pos 0 1).2 (by norm_num [parting])
  have hlast : IsLast halves 1 columns 2 := by
    have hplace : ∀ l, 2 < l → columns l ≠ columns 2 := by decide
    exact ⟨⟨3, hsecond⟩, fun l hl hsame => absurd hsame (hplace l hl)⟩
  have hlast' : IsLast (halves.map (Vec.permuted crosswise)) 1 (columns ∘ crosswise) 2 := by
    have hplace : ∀ l, 2 < l → (columns ∘ crosswise) l ≠ (columns ∘ crosswise) 2 := by decide
    exact ⟨⟨3, (related_permuted crosswise halves 1 2 3).2 hfirst⟩,
      fun l hl hsame => absurd hsame (hplace l hl)⟩
  refine ⟨_, _, ht, ht', ?_, fun hmem => ?_⟩
  · exact List.mem_map.2 ⟨_, (mem_row_of_isLast hone one_pos ht hlast _).2 ⟨3, hsecond, rfl⟩, rfl⟩
  · obtain ⟨e, he, hitem⟩ := List.mem_map.1 hmem
    obtain ⟨j, hj, rfl⟩ := (mem_row_of_isLast hone one_pos ht' hlast' e).1 he
    -- the other item of this pair is in the second column
    have hplace : ∀ j, (columns ∘ crosswise) j = .text "c" → crosswise j = 3 := by decide
    rw [related_permuted, hplace j hitem] at hj
    have hlt := (related_halves one_pos _ _).1 hj
    norm_num [parting, crosswise] at hlt

end CoEmbed
