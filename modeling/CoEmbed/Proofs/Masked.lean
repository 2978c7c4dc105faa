import CoEmbed.Proofs.Exact.Line
import CoEmbed.Proofs.Table
import CoEmbed.Recommender

/-!
# Masked Items

All items are ranked, those of a history among them: a masked item counts as negative infinity, and
the ranking is cut where there are as many items in front as are not masked. That leaves the masked
items out, unless the score of some other item is negative infinity as well.

* `Fitted.scored`, `Fitted.recommendBy` — the items outside a history, and the first of them in some
  ranking.
* `Fitted.available_eq` — as many items are not masked as there are outside the history.
* `Fitted.height`, `Fitted.precedesMasked_iff` — where scores stand, masked ones among them.
* `filter_mergeSort` — sorting before or after some members are left out.
* `Fitted.filter_ranked` — the items that are not masked stand as if they had been ranked alone.
* `Fitted.Audible` — no item outside a history scores negative infinity.
* `Fitted.recommend_eq_recommendBy` — then masked items may as well be left out beforehand.
* `Fitted.not_mem_history` — then no item of the history is suggested.
* `Fitted.ranked_of_inaudible` — otherwise one may be.

## Tie convention

Items with equal scores stand in the reverse of the order in which they were registered, whether
they are masked or not.
-/

namespace CoEmbed

/-! ### Sorting a part of a list -/

/-- Members that come **before all others** may be taken apart from them. -/
theorem filter_append_filter_of_pairwise {κ : Type} {p : κ → Bool} {xs : List κ}
    (h : xs.Pairwise fun a b => p b = true → p a = true) :
    xs.filter p ++ xs.filter (fun x => !p x) = xs := by
  induction xs with
  | nil => rfl
  | cons x xs ih =>
      obtain ⟨hx, hxs⟩ := List.pairwise_cons.1 h
      cases hp : p x with
      | true =>
          rw [List.filter_cons_of_pos hp, List.filter_cons_of_neg (by simp [hp]), List.cons_append,
            ih hxs]
      | false =>
          have hnone : xs.filter p = [] := List.filter_eq_nil_iff.2 fun y hy hpy => by
            rw [hx y hy hpy] at hp
            cases hp
          have hall : xs.filter (fun x => !p x) = xs := List.filter_eq_self.2 fun y hy => by
            rw [Bool.not_eq_true', Bool.eq_false_iff]
            exact List.filter_eq_nil_iff.1 hnone y hy
          rw [List.filter_cons_of_neg (by simp [hp]), List.filter_cons_of_pos (by simp [hp]), hnone,
            hall, List.nil_append]

/-- A list that is cut **before its rest** is what is in front of the rest, cut. -/
theorem take_min_of_append {κ : Type} {xs ys zs : List κ} (h : ys ++ zs = xs) (count : ℤ) :
    xs.take (min count ys.length).toNat = ys.take count.toNat := by
  have hle : (min count ys.length).toNat ≤ ys.length := by omega
  rw [← h, List.take_append_of_le_length hle, List.take_eq_take_iff]
  omega

/-- A list is cut in one way alone into members **that pass a test** and members that do not. -/
theorem append_inj_of_forall {κ : Type} {p : κ → Bool} {xs xs' ys ys' : List κ}
    (h : xs ++ ys = xs' ++ ys') (hx : ∀ x ∈ xs, p x = true) (hx' : ∀ x ∈ xs', p x = true)
    (hy : ∀ y ∈ ys, p y = false) (hy' : ∀ y ∈ ys', p y = false) : xs = xs' ∧ ys = ys' := by
  have hnone : ∀ {zs : List κ}, (∀ z ∈ zs, p z = false) → zs.filter p = [] := fun hz =>
    List.filter_eq_nil_iff.2 fun z hmem => by simp [hz z hmem]
  have hfront : xs = xs' := by
    have hfilter := congrArg (List.filter p) h
    rwa [List.filter_append, List.filter_append, List.filter_eq_self.2 hx,
      List.filter_eq_self.2 hx', hnone hy, hnone hy', List.append_nil, List.append_nil] at hfilter
  subst hfront
  exact ⟨rfl, List.append_cancel_left h⟩

/-- Members may be left out **before or after** a list is sorted. -/
theorem filter_mergeSort {κ : Type} {le : κ → κ → Bool}
    (htrans : ∀ a b c, le a b = true → le b c = true → le a c = true)
    (htotal : ∀ a b, (le a b || le b a) = true) (p : κ → Bool) (xs : List κ) :
    (xs.mergeSort le).filter p = (xs.filter p).mergeSort le := by
  induction xs with
  | nil => simp
  | cons x xs ih =>
      -- where a member is put is told by a comparison with it
      obtain ⟨ys, zs, hsort, hrest, hfront⟩ := List.mergeSort_cons htrans htotal x xs
      cases hp : p x with
      | false =>
          rw [List.filter_cons_of_neg (by simp [hp]), ← ih, hsort, hrest, List.filter_append,
            List.filter_cons_of_neg (by simp [hp]), List.filter_append]
      | true =>
          obtain ⟨ys', zs', hsort', hrest', hfront'⟩ :=
            List.mergeSort_cons htrans htotal x (xs.filter p)
          have hbehind : ∀ {us vs ws : List κ}, us.mergeSort le = vs ++ x :: ws →
              ∀ w ∈ ws, (!le x w) = false := by
            intro us vs ws heq w hw
            have hpairs := List.pairwise_mergeSort htrans htotal us
            rw [heq, List.pairwise_append, List.pairwise_cons] at hpairs
            rw [hpairs.2.1.1 w hw]
            rfl
          have hparts : ys.filter p ++ zs.filter p = ys' ++ zs' := by
            rw [← List.filter_append, ← hrest, ih, hrest']
          obtain ⟨hys, hzs⟩ := append_inj_of_forall (p := fun y => !le x y) hparts
            (fun y hy => hfront y (List.mem_of_mem_filter hy)) hfront'
            (fun z hz => hbehind hsort z (List.mem_of_mem_filter hz)) (hbehind hsort')
          rw [List.filter_cons_of_pos hp, hsort', hsort, List.filter_append,
            List.filter_cons_of_pos hp, hys, hzs]

/-- In a list of three a first member that belongs behind the others, which are equal, **becomes the
last**. -/
theorem mergeSort_of_last {κ : Type} {le : κ → κ → Bool} {x y z : κ} (hxy : le x y = false)
    (hxz : le x z = false) (hyz : le y z = true) : [x, y, z].mergeSort le = [y, z, x] := by
  simp [List.mergeSort, List.MergeSort.Internal.splitInTwo, hxy, hxz, hyz]

namespace Fitted

variable {α : Type}

/-! ### Items outside a history -/

section

variable {f : Fitted α}

/-- The **known members** of a history are those of its members that are items. -/
theorem toFinset_familiar (history : List Key) :
    (f.familiar history).toFinset = f.model.beta.domain ∩ history.toFinset := by
  ext k
  rw [List.mem_toFinset, familiar, List.mem_filter, decide_eq_true_iff, Finset.mem_inter,
    Table.mem_domain, List.mem_toFinset]
  exact and_comm

/-- As many items are not masked as there are **outside the history**. -/
theorem available_eq (history : List Key) :
    f.available history = (f.model.beta.domain \ history.toFinset).card := by
  have hitems : f.items.length = f.model.beta.domain.card :=
    (List.toFinset_card_of_nodup f.model.beta.nodup_keys).symm
  have hdistinct : (distinct (f.familiar history)).length
      = (f.model.beta.domain ∩ history.toFinset).card := by
    rw [← toFinset_familiar, ← List.toFinset_card_of_nodup (nodup_distinct _)]
    refine congrArg Finset.card (Finset.ext fun k => ?_)
    rw [List.mem_toFinset, mem_distinct, List.mem_toFinset]
  have hsplit := Finset.card_sdiff_add_card_inter f.model.beta.domain history.toFinset
  rw [available, hitems, hdistinct]
  omega

end

section

variable [Scalar α]

/-- The items outside a history, **each with its score**. -/
def scored (f : Fitted α) (profile : Vec α f.factor) (history : List Key) : List (Key × α) :=
  (f.model.beta.entries.filter fun e => decide (e.1 ∉ history)).map fun e =>
    (e.1, Vec.dot e.2 profile)

/-- Items with their scores, the **highest first**; of equal scores the later item goes first. -/
def descending (xs : List (Key × α)) : List (Key × α) :=
  (xs.mergeSort fun a b => !precedes b.2 a.2).reverse

/-- The first of the items that a ranking puts **outside a history**, for a user or for the history
of a user who is not known. -/
def recommendBy (ranking : List (Key × α) → List (Key × α)) (f : Fitted α) (user : Key)
    (history : List Key) (count : ℤ) : List Key :=
  match f.profile user history with
  | none => []
  | some v => ((ranking (f.scored v history)).take count.toNat).map Prod.fst

/-- Items in descending order are **the same items**. -/
theorem descending_perm (xs : List (Key × α)) : (descending xs).Perm xs :=
  (List.reverse_perm _).trans (List.mergeSort_perm xs _)

/-- So are items that are ranked, masked ones among them. -/
theorem ranked_perm (xs : List (Key × Option α)) : (ranked xs).Perm xs :=
  (List.reverse_perm _).trans (List.mergeSort_perm xs _)

variable {f : Fitted α}

/-- The items that are scored are those **outside the history**. -/
theorem map_fst_scored (v : Vec α f.factor) (history : List Key) :
    (f.scored v history).map Prod.fst = f.items.filter fun k => decide (k ∉ history) := by
  rw [scored, List.map_map, items, Table.keys, List.filter_map]
  rfl

theorem nodup_map_fst_scored (v : Vec α f.factor) (history : List Key) :
    ((f.scored v history).map Prod.fst).Nodup := by
  rw [map_fst_scored]
  exact f.model.beta.nodup_keys.filter _

theorem mem_map_fst_scored {v : Vec α f.factor} {history : List Key} {k : Key} :
    k ∈ (f.scored v history).map Prod.fst ↔ k ∈ f.model.beta ∧ k ∉ history := by
  rw [map_fst_scored, List.mem_filter, decide_eq_true_iff]
  rfl

theorem length_scored (v : Vec α f.factor) (history : List Key) :
    (f.scored v history).length = (f.model.beta.domain \ history.toFinset).card := by
  rw [← List.length_map Prod.fst, ← List.toFinset_card_of_nodup (nodup_map_fst_scored v history)]
  refine congrArg Finset.card (Finset.ext fun k => ?_)
  rw [List.mem_toFinset, mem_map_fst_scored, Finset.mem_sdiff, Table.mem_domain, List.mem_toFinset]

/-- The items are **all ranked**. -/
theorem map_fst_masked (v : Vec α f.factor) (history : List Key) :
    (f.masked v history).map Prod.fst = f.items := List.map_map

/-- A fitted recommender **does not repeat itself**. -/
theorem nodup_recommend (f : Fitted α) (user : Key) (history : List Key) (count : ℤ) :
    (f.recommend user history count).Nodup := by
  rw [recommend]
  split
  · exact List.nodup_nil
  · next v hv =>
      have hperm := (ranked_perm (f.masked v history)).map Prod.fst
      rw [map_fst_masked] at hperm
      exact (hperm.nodup_iff.2 f.model.beta.nodup_keys).sublist ((List.take_sublist _ _).map _)

/-- Without a mask there are **the items outside the history**. -/
theorem filter_masked (v : Vec α f.factor) (history : List Key) :
    (f.masked v history).filter (fun e => e.2.isSome)
      = (f.scored v history).map fun e => (e.1, some e.2) := by
  rw [masked, scored, List.filter_map, List.map_map]
  refine (congrArg (List.map _) (List.filter_congr fun e _ => ?_)).trans
    (List.map_congr_left fun e he => ?_)
  · by_cases hmem : e.1 ∈ history <;> simp [hmem]
  · have hfresh : e.1 ∉ history := of_decide_eq_true (List.mem_filter.1 he).2
    simp [hfresh]

end

/-! ### Where scores stand -/

section

variable [Numeral α] [Numeral.Valued α]

open Numeral (Valued)

/-- Where a score **stands**: what is masked at the bottom of the line, and what is not a number
above it. -/
noncomputable def height : Option α → WithTop EReal
  | none => ((⊥ : EReal) : WithTop EReal)
  | some a => if Scalar.exceptional? a = some .notANumber then ⊤ else (Valued.value a : EReal)

/-- A score that is not negative infinity stands **above what is masked**. -/
theorem height_none_lt_iff {b : α} :
    height (none : Option α) < height (some b) ↔
      Scalar.exceptional? b ≠ some .negativeInfinity := by
  rw [height, height]
  cases he : Scalar.exceptional? b with
  | none =>
      obtain ⟨r, hr, -⟩ := Valued.truncate he
      rw [if_neg (by decide), hr]
      exact iff_of_true (WithTop.coe_lt_coe.2 (EReal.bot_lt_coe r)) (by decide)
  | some e =>
      cases e with
      | notANumber =>
          rw [if_pos rfl]
          exact iff_of_true (WithTop.coe_lt_top _) (by decide)
      | positiveInfinity =>
          rw [if_neg (by decide), Valued.positiveInfinity he]
          exact iff_of_true (WithTop.coe_lt_coe.2 bot_lt_top) (by decide)
      | negativeInfinity =>
          rw [if_neg (by decide), Valued.negativeInfinity he]
          exact iff_of_false (lt_irrefl _) fun h => h rfl

/-- A score precedes another just if it **stands below it**. -/
theorem precedesMasked_iff {a b : Option α} :
    precedesMasked a b = true ↔ height a < height b := by
  cases a with
  | none =>
      cases b with
      | none => exact iff_of_false Bool.false_ne_true (lt_irrefl _)
      | some b => rw [height_none_lt_iff, precedesMasked, bne_iff_ne]
  | some a =>
      cases b with
      | none =>
          refine iff_of_false Bool.false_ne_true (not_lt.2 ?_)
          rw [height]
          exact bot_le
      | some b =>
          rw [precedesMasked, precedes, height, height, Bool.or_eq_true, Bool.and_eq_true,
            Valued.lt_iff, bne_iff_ne, beq_iff_eq]
          by_cases ha : Scalar.exceptional? a = some .notANumber
          · rw [if_pos ha]
            exact iff_of_false (fun h => h.elim (fun h => h.1 ha) fun h => h.1 ha) not_top_lt
          · rw [if_neg ha]
            by_cases hb : Scalar.exceptional? b = some .notANumber
            · rw [if_pos hb]
              exact iff_of_true (.inr ⟨ha, hb⟩) (WithTop.coe_lt_top _)
            · rw [if_neg hb, WithTop.coe_lt_coe]
              exact ⟨fun h => h.elim (fun h => h.2.2) fun h => absurd h.2 hb,
                fun h => .inl ⟨ha, hb, h⟩⟩

/-- Items are put in order **by where their scores stand**. -/
theorem not_precedesMasked_iff {a b : Option α} :
    (!precedesMasked b a) = true ↔ height a ≤ height b := by
  rw [Bool.not_eq_true', Bool.eq_false_iff, ne_eq, precedesMasked_iff, not_lt]

theorem not_precedesMasked_trans (a b c : Key × Option α)
    (hab : (!precedesMasked b.2 a.2) = true) (hbc : (!precedesMasked c.2 b.2) = true) :
    (!precedesMasked c.2 a.2) = true :=
  not_precedesMasked_iff.2
    ((not_precedesMasked_iff.1 hab).trans (not_precedesMasked_iff.1 hbc))

theorem not_precedesMasked_total (a b : Key × Option α) :
    ((!precedesMasked b.2 a.2) || !precedesMasked a.2 b.2) = true := by
  rw [Bool.or_eq_true, not_precedesMasked_iff, not_precedesMasked_iff]
  exact le_total _ _

/-- Items that are ranked stand in **descending order**. -/
theorem pairwise_ranked (xs : List (Key × Option α)) :
    (ranked xs).Pairwise fun a b => height b.2 ≤ height a.2 := by
  rw [ranked, List.pairwise_reverse]
  exact (List.pairwise_mergeSort not_precedesMasked_trans not_precedesMasked_total xs).imp
    not_precedesMasked_iff.1

variable {f : Fitted α}

/-- The items that are not masked stand as if they had been **ranked alone**. -/
theorem filter_ranked (v : Vec α f.factor) (history : List Key) :
    (ranked (f.masked v history)).filter (fun e => e.2.isSome)
      = (descending (f.scored v history)).map fun e => (e.1, some e.2) := by
  rw [ranked, descending, List.filter_reverse,
    filter_mergeSort not_precedesMasked_trans not_precedesMasked_total, filter_masked,
    List.map_reverse]
  exact congrArg List.reverse (List.map_mergeSort (f := fun e : Key × α => (e.1, some e.2))
    (s := fun a b => !precedesMasked b.2 a.2) fun a _ b _ => rfl).symm

variable (f)

/-- No item outside a history scores **negative infinity**, which a masked item counts as. -/
def Audible (user : Key) (history : List Key) : Prop :=
  ∀ v, f.profile user history = some v → ∀ e ∈ f.scored v history,
    Scalar.exceptional? e.2 ≠ some .negativeInfinity

variable {f}

/-- If no score is negative infinity, the masked items **come last and are cut off**, so that they
may as well be left out beforehand. -/
theorem recommend_eq_recommendBy {user : Key} {history : List Key} (h : f.Audible user history)
    (count : ℤ) :
    f.recommend user history count = f.recommendBy descending user history count := by
  rw [recommend, recommendBy]
  cases hv : f.profile user history with
  | none => rfl
  | some v =>
      dsimp only
      set items := ranked (f.masked v history) with hitems
      have hfront : items.filter (fun e => e.2.isSome)
          = (descending (f.scored v history)).map fun e => (e.1, some e.2) :=
        filter_ranked v history
      have hroom : f.available history = (items.filter fun e => e.2.isSome).length := by
        rw [hfront, List.length_map, (descending_perm _).length_eq, length_scored, available_eq]
      have hlast : items.Pairwise fun a b => b.2.isSome = true → a.2.isSome = true := by
        refine (pairwise_ranked (f.masked v history)).imp_of_mem fun {a b} ha hb hle hsome => ?_
        by_contra hnone
        obtain ⟨x, hx⟩ := Option.isSome_iff_exists.1 hsome
        have hscored : (b.1, x) ∈ f.scored v history := by
          have hmem : b ∈ items.filter fun e => e.2.isSome := List.mem_filter.2 ⟨hb, hsome⟩
          rw [hfront] at hmem
          obtain ⟨e, he, heq⟩ := List.mem_map.1 hmem
          obtain ⟨hkey, hvalue⟩ := Prod.mk.inj (heq.trans (Prod.ext rfl hx : b = (b.1, some x)))
          rw [← hkey, ← Option.some.inj hvalue]
          exact (descending_perm _).subset he
        rw [Option.not_isSome_iff_eq_none.1 hnone, hx] at hle
        exact hle.not_gt (height_none_lt_iff.2 (h v hv _ hscored))
      rw [hroom, take_min_of_append (filter_append_filter_of_pairwise hlast), hfront,
        ← List.map_take, List.map_map]
      rfl

/-- Nothing is suggested that is **in the history**, if no score is negative infinity. -/
theorem not_mem_history {user : Key} {history : List Key} (h : f.Audible user history) {count : ℤ}
    {i : Key} (hi : i ∈ f.recommend user history count) : i ∉ history := by
  rw [recommend_eq_recommendBy h, recommendBy] at hi
  split at hi
  · cases hi
  · next v hv =>
      have hkeys := (descending_perm (f.scored v history)).map Prod.fst
      rw [List.map_take] at hi
      exact (mem_map_fst_scored.1 (hkeys.subset (List.mem_of_mem_take hi))).2

/-- If some score is negative infinity, a masked item **may be ranked before it**. -/
theorem ranked_of_inaudible {xs : List (Key × Option α)} {i j k : Key}
    (h : xs.map (fun e => (e.1, e.2.map Scalar.exceptional?))
      = [(i, some none), (j, some (some .negativeInfinity)), (k, none)]) :
    (ranked xs).map Prod.fst = [i, k, j] := by
  obtain ⟨⟨i, s⟩, ⟨j, t⟩, ⟨k, u⟩, rfl⟩ :=
    List.length_eq_three.1 ((List.length_map _).symm.trans (congrArg List.length h))
  simp only [List.map_cons, List.map_nil, List.cons.injEq, Prod.mk.injEq, Option.map_eq_some_iff,
    Option.map_eq_none_iff, and_true] at h
  obtain ⟨⟨rfl, a, rfl, ha⟩, ⟨rfl, b, rfl, hb⟩, rfl, rfl⟩ := h
  have hover : height (none : Option α) < height (some a) :=
    height_none_lt_iff.2 (ha.trans_ne nofun)
  have htie : height (some b) ≤ height (none : Option α) :=
    not_lt.1 fun h => height_none_lt_iff.1 h hb
  rw [ranked, mergeSort_of_last]
  · rfl
  · rw [Bool.not_eq_false', precedesMasked_iff]
    exact htie.trans_lt hover
  · rw [Bool.not_eq_false', precedesMasked_iff]
    exact hover
  · exact not_precedesMasked_iff.2 htie

end

end Fitted

end CoEmbed
