import CoEmbed.Interactions
import CoEmbed.Proofs.Table

/-!
# Lists of Pairs

What happens to a list on its way into tables: its members are taken once each, some of them are
held out, and the others are listed under one of their parts.

* `distinct_pairwise` — distinct members stand in the order in which they first appear.
* `keys_grouped`, `getD_grouped`, `grouped_perm` — the rows of a list that is grouped.
* `entries_grouped_map` — the rows do not depend on what their keys are called.
* `mem_dealt`, `dealt_sublist`, `dealt_append_perm` — the members of a list on one side of a split.
* `userCount_eq_ncard`, `popular_eq_filter` — the items that enough users have.

## Place convention

A member of a list appears at the places at which it stands; the first of them is zero.
-/

namespace CoEmbed

/-! ### Order of first appearance -/

/-- The distinct members of a part of a list stand in the order in which they **first appear** in
the list itself. -/
theorem distinct_pairwise {ζ κ : Type} [DecidableEq κ] (c : ζ → Bool) (g : ζ → κ) (zs : List ζ) :
    (distinct ((zs.filter c).map g)).Pairwise fun a b =>
      ∃ k : ℕ, (∃ z, zs[k]? = some z ∧ c z = true ∧ g z = a) ∧
        ∀ (l : ℕ) z, zs[l]? = some z → c z = true → g z = b → k < l := by
  induction zs with
  | nil => exact List.Pairwise.nil
  | cons z zs ih =>
      -- behind one more member everything appears one place later
      have hlater : ∀ {a b : κ}, (c z = true → g z ≠ b) →
          (∃ k : ℕ, (∃ z, zs[k]? = some z ∧ c z = true ∧ g z = a) ∧
            ∀ (l : ℕ) z, zs[l]? = some z → c z = true → g z = b → k < l) →
          ∃ k : ℕ, (∃ y, (z :: zs)[k]? = some y ∧ c y = true ∧ g y = a) ∧
            ∀ (l : ℕ) y, (z :: zs)[l]? = some y → c y = true → g y = b → k < l := by
        rintro a b hz ⟨k, hk, hfirst⟩
        refine ⟨k + 1, hk, fun l y hl hy hb => ?_⟩
        cases l with
        | zero =>
            obtain rfl := Option.some.inj hl
            exact absurd hb (hz hy)
        | succ l => exact Nat.succ_lt_succ (hfirst l y hl hy hb)
      by_cases hz : c z = true
      · rw [List.filter_cons_of_pos hz, List.map_cons, distinct, List.pairwise_cons]
        refine ⟨fun b hb => ⟨0, ⟨z, rfl, hz, rfl⟩, fun l y hl hy hg => ?_⟩, ?_⟩
        · cases l with
          | zero =>
              obtain rfl := Option.some.inj hl
              exact absurd hg.symm (of_decide_eq_true (List.mem_filter.1 hb).2)
          | succ l => exact Nat.succ_pos l
        · refine (ih.filter _).imp_of_mem fun {a b} _ hb h => hlater (fun _ hg => ?_) h
          exact of_decide_eq_true (List.mem_filter.1 hb).2 hg.symm
      · rw [List.filter_cons_of_neg hz]
        exact ih.imp fun {a b} h => hlater (fun hz' => absurd hz' hz) h

/-! ### Groups -/

section

variable {κ ν : Type} [DecidableEq κ]

theorem weightsOf_eq_map_filter (es : List (κ × ν)) (k : κ) :
    weightsOf es k = (es.filter fun e => e.1 = k).map Prod.snd := by
  induction es with
  | nil => rfl
  | cons e es ih =>
      rw [weightsOf_cons, List.filter_cons, ih]
      by_cases h : e.1 = k
      · rw [if_pos h, if_pos (decide_eq_true h)]
        rfl
      · rw [if_neg h, if_neg (mt of_decide_eq_true h)]

/-- A list that is grouped has **a row for each key**, in order of first appearance. -/
theorem keys_grouped (es : List (κ × ν)) : (grouped es).keys = distinct (es.map Prod.fst) := by
  have key : ∀ t : Table κ (List ν),
      (es.foldl (fun t e => t.insert e.1 ((t.get? e.1).getD [] ++ [e.2])) t).keys
        = t.keys ++ (distinct (es.map Prod.fst)).filter fun k => decide (k ∉ t) := by
    induction es with
    | nil => exact fun t => (List.append_nil _).symm
    | cons e es ih =>
        intro t
        rw [List.foldl_cons, ih, List.map_cons, distinct, List.filter_cons, List.filter_filter]
        by_cases he : e.1 ∈ t
        · rw [Table.keys_insert_of_mem he, if_neg (by simp [he])]
          congr 1
          refine List.filter_congr fun k _ => ?_
          by_cases hk : k = e.1 <;> simp [hk, he]
        · rw [Table.keys_insert_of_not_mem he, if_pos (by simp [he]), List.append_assoc]
          refine congrArg (fun r => t.keys ++ e.1 :: r) ?_
          refine List.filter_congr fun k _ => ?_
          by_cases hk : k = e.1 <;> simp [hk]
  refine (key Table.empty).trans ?_
  rw [show (Table.empty : Table κ (List ν)).keys = [] from rfl, List.nil_append]
  exact List.filter_eq_self.2 fun k _ => decide_eq_true (Table.not_mem_empty k)

/-- The row of a key is **what is listed under it**, in order. -/
theorem getD_grouped (es : List (κ × ν)) (k : κ) :
    ((grouped es).get? k).getD [] = (es.filter fun e => e.1 = k).map Prod.snd := by
  have key : ∀ t : Table κ (List ν),
      ((es.foldl (fun t e => t.insert e.1 ((t.get? e.1).getD [] ++ [e.2])) t).get? k).getD []
        = (t.get? k).getD [] ++ weightsOf es k := by
    induction es with
    | nil => exact fun t => (List.append_nil _).symm
    | cons e es ih =>
        intro t
        rw [List.foldl_cons, ih, Table.get?_insert, weightsOf_cons]
        by_cases h : k = e.1
        · rw [if_pos h, if_pos h.symm, ← h]
          exact List.append_assoc _ _ _
        · rw [if_neg h, if_neg (Ne.symm h)]
  rw [← weightsOf_eq_map_filter]
  exact key Table.empty

/-- The entries of a table of lists, **one by one**. -/
def Table.listed {κ ν : Type} (t : Table κ (List ν)) : List (κ × ν) :=
  t.entries.flatMap fun e => e.2.map (Prod.mk e.1)

theorem Table.length_listed {κ ν : Type} (t : Table κ (List ν)) :
    t.listed.length = t.values.flatten.length := by
  rw [listed, List.length_flatMap, List.length_flatten, values, List.map_map]
  exact congrArg List.sum (List.map_congr_left fun e _ => List.length_map _)

/-- Grouping **loses nothing and repeats nothing**. -/
theorem grouped_perm [DecidableEq ν] (es : List (κ × ν)) : (grouped es).listed.Perm es := by
  rw [List.perm_iff_count]
  intro p
  -- what is listed under a key is the part of the list with that key
  have hrow : ∀ k, ((((grouped es).get? k).getD []).map (Prod.mk k)).count p
      = if p.1 = k then es.count p else 0 := by
    intro k
    have hpart : (((grouped es).get? k).getD []).map (Prod.mk k) = es.filter fun e => e.1 = k := by
      rw [getD_grouped, List.map_map]
      refine (List.map_congr_left fun e he => ?_).trans (List.map_id _)
      exact Prod.ext (of_decide_eq_true (List.mem_filter.1 he).2).symm rfl
    rw [hpart]
    split
    · next hk => exact List.count_filter (decide_eq_true hk)
    · next hk =>
        exact List.count_eq_zero.2 fun hp => hk (of_decide_eq_true (List.mem_filter.1 hp).2)
  rw [Table.listed, List.count_flatMap]
  refine ((grouped es).sum_entries fun k row => ((row.getD []).map (Prod.mk k)).count p).trans ?_
  rw [Finset.sum_congr rfl fun k _ => hrow k, Finset.sum_ite_eq]
  split
  · rfl
  · next hp =>
      refine (List.count_eq_zero.2 fun hmem => hp ?_).symm
      rw [Table.mem_domain, Table.mem_iff, keys_grouped, mem_distinct]
      exact List.mem_map_of_mem hmem

/-- A table of lists has **the row of each key**. -/
theorem Table.entries_eq_map_keys (t : Table κ (List ν)) :
    t.entries = t.keys.map fun k => (k, (t.get? k).getD []) := by
  rw [Table.keys, List.map_map]
  refine (List.map_id _).symm.trans (List.map_congr_left fun e he => ?_)
  exact Prod.ext rfl (by rw [Function.comp_apply, Table.get?_of_mem_entries he]; rfl)

/-- Keys that are **written in another way** are as distinct as before. -/
theorem distinct_map {μ : Type} [DecidableEq μ] {g : κ → μ} (hg : Function.Injective g)
    (ks : List κ) : distinct (ks.map g) = (distinct ks).map g := by
  induction ks with
  | nil => rfl
  | cons k ks ih =>
      rw [List.map_cons, distinct, ih, distinct, List.map_cons, List.filter_map]
      refine congrArg (fun l => g k :: l.map g) (List.filter_congr fun l _ => ?_)
      exact decide_eq_decide.2 hg.ne_iff

/-- So are they **grouped as before**. -/
theorem entries_grouped_map {μ : Type} [DecidableEq μ] {g : κ → μ} (hg : Function.Injective g)
    (es : List (κ × ν)) : (grouped (es.map fun e => (g e.1, e.2))).entries
      = (grouped es).entries.map fun e => (g e.1, e.2) := by
  rw [Table.entries_eq_map_keys, Table.entries_eq_map_keys (grouped es), keys_grouped, keys_grouped,
    List.map_map, List.map_map]
  have hkeys : es.map (Prod.fst ∘ fun e => (g e.1, e.2)) = (es.map Prod.fst).map g := by
    rw [List.map_map]
    rfl
  rw [hkeys, distinct_map hg, List.map_map]
  refine List.map_congr_left fun k _ => Prod.ext rfl ?_
  change ((grouped (es.map fun e => (g e.1, e.2))).get? (g k)).getD []
    = ((grouped es).get? k).getD []
  rw [getD_grouped, getD_grouped, List.filter_map, List.map_map]
  refine congrArg (List.map Prod.snd) (List.filter_congr fun e _ => ?_)
  exact decide_eq_decide.2 hg.eq_iff

/-- No row of a list that is grouped is **empty**. -/
theorem ne_nil_of_mem_grouped {es : List (κ × ν)} {e : κ × List ν}
    (he : e ∈ (grouped es).entries) : e.2 ≠ [] := by
  have hkey : e.1 ∈ (grouped es).keys := List.mem_map_of_mem he
  rw [keys_grouped, mem_distinct] at hkey
  obtain ⟨p, hp, hpe⟩ := List.mem_map.1 hkey
  have hrow := getD_grouped es e.1
  rw [Table.get?_of_mem_entries he, Option.getD_some] at hrow
  rw [hrow]
  exact List.ne_nil_of_mem
    (List.mem_map_of_mem (List.mem_filter.2 ⟨hp, decide_eq_true hpe⟩))

end

/-! ### Sides -/

section

variable {κ : Type}

/-- The members of a list whose places are on **one side** of a split. -/
def dealt (side : ℕ → Bool) (xs : List κ) : List κ :=
  (xs.zipIdx.filter fun e => side e.2).map Prod.fst

theorem dealt_sublist (side : ℕ → Bool) (xs : List κ) : (dealt side xs).Sublist xs := by
  have h := (List.filter_sublist (l := xs.zipIdx) (p := fun e => side e.2)).map Prod.fst
  rwa [List.zipIdx_map_fst] at h

/-- A member of a list without repetitions is on the **side of its place**. -/
theorem mem_dealt {side : ℕ → Bool} {xs : List κ} (h : xs.Nodup) {k : ℕ} (hk : k < xs.length) :
    xs[k] ∈ dealt side xs ↔ side k = true := by
  constructor
  · intro hmem
    obtain ⟨⟨x, l⟩, he, hx⟩ := List.mem_map.1 hmem
    obtain ⟨hzip, hside⟩ := List.mem_filter.1 he
    obtain ⟨hl, heq⟩ := List.getElem?_eq_some_iff.1 (List.mem_zipIdx_iff_getElem?.1 hzip)
    have hplace : l = k := (h.getElem_inj_iff).1 (heq.trans hx)
    exact hplace ▸ hside
  · intro hside
    refine List.mem_map.2 ⟨(xs[k], k), List.mem_filter.2 ⟨?_, hside⟩, rfl⟩
    exact List.mem_zipIdx_iff_getElem?.2 (List.getElem?_eq_getElem hk)

/-- The two sides of a split **make up the list**. -/
theorem dealt_append_perm (side : ℕ → Bool) (xs : List κ) :
    (dealt (fun k => !side k) xs ++ dealt side xs).Perm xs := by
  have h := (List.filter_append_perm (fun e => side e.2) xs.zipIdx).map Prod.fst
  rw [List.map_append, List.zipIdx_map_fst] at h
  exact List.perm_append_comm.trans h

variable [Machine]

/-- Draws **deal** the pairs of a list out to two sides. -/
theorem divide_units {α : Type} [Scalar α] (share : α) (s : Source) (pairs : List (Key × Key)) :
    divide share pairs (s.units pairs.length)
      = (dealt (fun k => !Scalar.lt (s.unit k) share) pairs,
          dealt (fun k => Scalar.lt (s.unit k) share) pairs) := by
  have hzip : pairs.zip (s.units pairs.length)
      = pairs.zipIdx.map fun e => (e.1, (s.unit e.2 : α)) := by
    refine List.ext_getElem ?_ fun k _ _ => ?_
    · simp [Source.units]
    · simp [Source.units]
  simp only [divide, hzip, dealt, List.filter_map, List.map_map]
  rfl

end

/-! ### Items with enough users -/

/-- The pairs of an item with **enough users**, the missing item apart. -/
theorem popular_eq_filter (enough : ℕ → Bool) (log : List (Key × Key)) :
    popular enough log
      = log.filter fun p => decide (p.2 ≠ .missing) && enough (userCount log p.2) := by
  refine List.filter_congr fun p hp => ?_
  have hlisted : p.2 ∈ distinct (log.map Prod.snd) := mem_distinct.2 (List.mem_map_of_mem hp)
  simp [List.mem_filter, hlisted]

/-- The number of users of an item is that of **a set**: repetitions do not count, and neither does
a missing user. -/
theorem userCount_eq_ncard (log : List (Key × Key)) (i : Key) :
    userCount log i = {u | u ≠ Key.missing ∧ (u, i) ∈ log}.ncard := by
  have hset : {u | u ≠ Key.missing ∧ (u, i) ∈ log}
      = ↑(distinct ((log.filter fun p => p.2 = i ∧ p.1 ≠ .missing).map Prod.fst)).toFinset := by
    ext u
    simp only [Set.mem_ofPred_eq, List.coe_toFinset, mem_distinct, List.mem_map, List.mem_filter,
      decide_eq_true_eq]
    constructor
    · rintro ⟨hu, hlog⟩
      exact ⟨(u, i), ⟨hlog, rfl, hu⟩, rfl⟩
    · rintro ⟨p, ⟨hlog, rfl, hu⟩, rfl⟩
      exact ⟨hu, hlog⟩
  rw [hset, Set.ncard_coe_finset, List.toFinset_card_of_nodup (nodup_distinct _), userCount]

end CoEmbed
