import CoEmbed.Objective
import CoEmbed.Proofs.Exact.Zeros
import CoEmbed.Proofs.Table

/-!
# Strangers

A stranger is a key without a vector. Every update and every loss passes over the strangers in
the lists that it reads: it is what it would be if they had not been listed.

* `Table.among`, `Table.amongEntries` — a list without its strangers.
* `Table.restrict` — a table without the rows of some keys, the other rows shortened.
* `newTheta_among`, `newBeta_among`, `newGamma_among`, `newBias_among`, `newGlobalBias_among` —
  the updates.
* `preferenceLoss_restrict`, `neighborLoss_restrict` — the losses of the samples of a table.

## Zero convention

A row of neighbours that are all strangers is not an empty row: it adds a matrix of zeros to the
system of its item. Zeros of the other sign may come of that, but no other solution.
-/

namespace CoEmbed

open Scalar (FaintZeros)

variable {ρ α : Type} {n : ℕ}

/-! ### Lists without strangers -/

namespace Table

variable {κ ν μ : Type}

/-- The rows of some of the keys, each **sent through a function**. -/
def restrict (t : Table κ ν) (p : κ → Bool) (f : ν → μ) : Table κ μ where
  entries := (t.entries.filter fun e => p e.1).map fun e => (e.1, f e.2)
  nodup := by
    rw [List.map_map]
    exact (List.filter_sublist.map Prod.fst).nodup t.nodup

theorem entries_restrict (t : Table κ ν) (p : κ → Bool) (f : ν → μ) :
    (t.restrict p f).entries = (t.entries.filter fun e => p e.1).map fun e => (e.1, f e.2) := rfl

/-- The keys of what is kept are the kept keys. -/
theorem keys_restrict (t : Table κ ν) (p : κ → Bool) (f : ν → μ) :
    (t.restrict p f).keys = t.keys.filter p := by
  rw [keys, entries_restrict, List.map_map, keys, List.filter_map]
  rfl

variable [DecidableEq κ]

/-- The keys of a list that a table **knows**. -/
def among (t : Table κ ν) (ks : List κ) : List κ := ks.filter fun k => decide (k ∈ t)

/-- The entries of a list whose keys a table **knows**. -/
def amongEntries (t : Table κ ν) (es : List (κ × μ)) : List (κ × μ) :=
  es.filter fun e => decide (e.1 ∈ t)

/-- What a table knows depends on its **keys** alone. -/
theorem among_congr {t : Table κ ν} {u : Table κ μ} (h : t.keys = u.keys) :
    t.among = u.among := by
  funext ks
  simp only [among, mem_iff, h]

/-- Which entries a table knows depends on its **keys** alone. -/
theorem amongEntries_congr {ξ : Type} {t : Table κ ν} {u : Table κ μ} (h : t.keys = u.keys) :
    (t.amongEntries : List (κ × ξ) → _) = u.amongEntries := by
  funext es
  simp only [amongEntries, mem_iff, h]

/-- The keys of the known entries are the known keys. -/
theorem map_fst_amongEntries (t : Table κ ν) (es : List (κ × μ)) :
    (t.amongEntries es).map Prod.fst = t.among (es.map Prod.fst) := by
  rw [among, List.filter_map]
  rfl

theorem get?_of_unknown {t : Table κ ν} {k : κ} (h : decide (k ∈ t) = false) :
    t.get? k = none := get?_eq_none_iff.2 (of_decide_eq_false h)

/-- A key that is kept has its old value, sent through the function. -/
theorem get?_restrict (t : Table κ ν) {p : κ → Bool} (f : ν → μ) {k : κ} (h : p k = true) :
    (t.restrict p f).get? k = (t.get? k).map f := by
  have key : ∀ es : List (κ × ν), valueIn k ((es.filter fun e => p e.1).map fun e => (e.1, f e.2))
      = (valueIn k es).map f := by
    intro es
    induction es with
    | nil => rfl
    | cons e es ih =>
        rw [List.filter_cons, valueIn]
        by_cases he : e.1 = k
        · rw [if_pos (by rw [he, h]), List.map_cons, valueIn, if_pos he, if_pos he]
          rfl
        · rw [if_neg he]
          split
          · rw [List.map_cons, valueIn, if_neg he, ih]
          · exact ih
  exact key t.entries

/-- A row that is kept lists **what the function leaves** of it, and a row that is not there lists
nothing. -/
theorem getD_restrict {ξ : Type} (t : Table κ (List ξ)) {p : κ → Bool} {f : List ξ → List ξ}
    (hf : f [] = []) {k : κ} (h : p k = true) :
    ((t.restrict p f).get? k).getD [] = f ((t.get? k).getD []) := by
  rw [get?_restrict t f h]
  cases t.get? k with
  | none => exact hf.symm
  | some row => rfl

end Table

/-! ### Updates -/

theorem Factors.present_among (W : Factors α n) (ks : List Key) :
    W.present (W.among ks) = W.present ks := by
  rw [Factors.present, Table.among, List.filterMap_filter]
  refine List.filterMap_congr fun k _ => ?_
  cases hk : decide (k ∈ W) with
  | true => exact if_pos rfl
  | false =>
      rw [Table.get?_of_unknown hk]
      exact ite_self _

section

variable [Scalar α]

theorem Factors.gramOn_among (W : Factors α n) (ks : List Key) (c : α) :
    W.gramOn (W.among ks) c = W.gramOn ks c := by
  rw [Factors.gramOn, Factors.present_among]
  rfl

theorem weightedSum_among (W : Factors α n) (ks : List Key) (c : α) :
    weightedSum (W.among ks) W c = weightedSum ks W c := by
  refine foldl_kept (fun s k hk => ?_) _ ks
  rw [Table.get?_of_unknown hk]

/-- The best vector of a **user** does not depend on strangers among the rated items. -/
theorem newTheta_among (beta : Factors α n) (rated : List Key) (background : Mat α n n)
    (c₀ c₁ : α) :
    newTheta (beta.among rated) beta background c₀ c₁ = newTheta rated beta background c₀ c₁ := by
  rw [newTheta, Factors.gramOn_among, weightedSum_among]
  rfl

theorem pull_among (W : Factors α n) (row : Row α) (globalBias : α) :
    pull (W.amongEntries row) W globalBias = pull row W globalBias := by
  refine foldl_kept (fun s e he => ?_) _ row
  rw [Table.get?_of_unknown he]

/-- Reading an entry **keeps its key**, and fails at a known key alone. -/
theorem readEntry_cases (known : Key → Bool) (read : Key × ρ → Except Fault α) (e : Key × ρ) :
    (∃ x, readEntry known read e = .ok (e.1, x)) ∨
    (known e.1 = true ∧ ∃ f, readEntry known read e = .error f) := by
  rw [readEntry]
  cases read e with
  | ok x => exact .inl ⟨x, rfl⟩
  | error f =>
      cases hk : known e.1 with
      | true => exact .inr ⟨rfl, f, rfl⟩
      | false => exact .inl ⟨0, rfl⟩

/-- The value of a stranger may be anything, since it is **not read**. -/
theorem readEntries_kept (known : Key → Bool) (read : Key × ρ → Except Fault α)
    (es : List (Key × ρ)) :
    readEntries known read (es.filter fun e => known e.1)
      = (readEntries known read es).map fun rest => rest.filter fun e => known e.1 := by
  induction es with
  | nil => rfl
  | cons e es ih =>
      rw [List.filter_cons]
      rcases readEntry_cases known read e with ⟨x, he⟩ | ⟨hk, f, he⟩
      · have hcons : ∀ es, readEntries known read (e :: es)
            = (readEntries known read es).map fun rest => (e.1, x) :: rest := by
          intro es
          rw [readEntries, List.mapM_cons, he]
          rfl
        rw [hcons]
        cases hk : known e.1 with
        | true =>
            rw [if_pos rfl, hcons, ih]
            cases readEntries known read es with
            | error f => rfl
            | ok rest =>
                refine congrArg Except.ok (List.filter_cons_of_pos ?_).symm
                exact hk
        | false =>
            rw [if_neg Bool.false_ne_true, ih]
            cases readEntries known read es with
            | error f => rfl
            | ok rest =>
                refine congrArg Except.ok (List.filter_cons_of_neg ?_).symm
                rw [hk]
                exact Bool.false_ne_true
      · have hcons : ∀ es, readEntries known read (e :: es) = .error f := by
          intro es
          rw [readEntries, List.mapM_cons, he]
          rfl
        rw [if_pos hk, hcons, hcons]
        rfl

variable [Operand ρ α]

/-- Biases leave as much of the weights of those that are known **as before**. -/
theorem unexplained_among (k : Key) (row : Row ρ) (own other : Option (Table Key (Bias α)))
    (W : Factors α n) :
    unexplained k (W.amongEntries row) own other W
      = (unexplained k row own other W).map W.amongEntries :=
  readEntries_kept _ _ row

/-- A sum of vectors is **changed by no zero**, since it begins with zero. -/
theorem solid_weightedSum [FaintZeros α] (ks : List Key) (W : Factors α n) (c : α) :
    (weightedSum ks W c).Solid := by
  rw [weightedSum]
  refine List.foldlRecOn ks _ Vec.solid_zero fun s hs k _ => ?_
  split
  · exact hs.addScaled _ _
  · exact hs

/-- Adding a matrix of **zeros** leaves a system alike. -/
theorem Mat.alike_add_zero [FaintZeros α] {m : ℕ} (A B : Mat α m n) :
    Mat.Alike (Mat.add A B) (Mat.add A (Mat.add B Mat.zero)) := by
  intro i hi j hj
  rw [Mat.getElem_add, Mat.getElem_add, Mat.getElem_add, Mat.getElem_zero]
  exact FaintZeros.add _ (FaintZeros.solid_add_zero _).symm

/-- The best vector of an **item** does not depend on strangers among its raters and neighbours. -/
theorem newBeta_among [FaintZeros α] (item : Key) (raters : List Key) (row : Row ρ)
    (theta gamma : Factors α n) (betaBias gammaBias : Option (Table Key (Bias α)))
    (background : Mat α n n) (c₀ c₁ globalBias : α) :
    newBeta item (theta.among raters) (gamma.amongEntries row) theta gamma betaBias gammaBias
        background c₀ c₁ globalBias
      = newBeta item raters row theta gamma betaBias gammaBias background c₀ c₁ globalBias := by
  have hgram := gamma.gramOn_among (row.map Prod.fst) (1 : α)
  rw [newBeta, newBeta, unexplained_among]
  cases unexplained item row betaBias gammaBias gamma with
  | error f => rfl
  | ok rest =>
      change solveSystem _ _ = solveSystem _ _
      rw [Factors.gramOn_among, weightedSum_among, pull_among, Table.map_fst_amongEntries, hgram]
      by_cases hrow : row = []
      · subst hrow
        rfl
      · rw [if_neg (mt List.isEmpty_iff.1 hrow)]
        by_cases hnone : gamma.amongEntries row = []
        · -- the row lists strangers alone, and their matrix is zero
          have hzero : gamma.gramOn (row.map Prod.fst) 1 = Mat.zero := by
            rw [← hgram, ← Table.map_fst_amongEntries, hnone]
            rfl
          rw [if_pos (List.isEmpty_iff.2 hnone), hzero]
          refine solveSystem_alike (Mat.alike_add_zero _ _) fun i hi => ?_
          rw [Vec.getElem_add]
          exact FaintZeros.solid_add _ (solid_weightedSum raters theta c₁ i hi)
        · rw [if_neg (mt List.isEmpty_iff.1 hnone)]

/-- The best vector of an item **as a neighbour** does not depend on strangers. -/
theorem newGamma_among (item : Key) (row : Row ρ) (beta : Factors α n)
    (betaBias gammaBias : Option (Table Key (Bias α))) (ridge globalBias : α) :
    newGamma item (beta.amongEntries row) beta betaBias gammaBias ridge globalBias
      = newGamma item row beta betaBias gammaBias ridge globalBias := by
  have hneighbors : ((beta.amongEntries row).map Prod.fst).filter (fun j => decide (j ∈ beta))
      = (row.map Prod.fst).filter fun j => decide (j ∈ beta) := by
    rw [Table.map_fst_amongEntries, Table.among, List.filter_filter]
    simp only [Bool.and_self]
  rw [newGamma, newGamma, hneighbors, unexplained_among]
  cases unexplained item row gammaBias betaBias beta with
  | error f => rfl
  | ok rest =>
      refine if_congr Iff.rfl rfl ?_
      change (solveSystem _ _).map some = (solveSystem _ _).map some
      rw [pull_among]

theorem tallyRow_among {m : ℕ} (v : Vec α m) (row : Row ρ) (W : Factors α n)
    (rest : α → Key → α → α) (t : Tally α) :
    tallyRow v (W.amongEntries row) W rest t = tallyRow v row W rest t := by
  refine foldlM_kept (fun s e he => ?_) t row
  rw [Table.get?_of_unknown he]

/-- The best **bias** of an item does not depend on strangers among its neighbours. -/
theorem newBias_among {m : ℕ} (item : Key) (row : Row ρ) (own : Factors α m)
    (others : Factors α n) (otherBias : Option (Table Key (Bias α))) (globalBias : α) :
    newBias item (others.amongEntries row) own others otherBias globalBias
      = newBias item row own others otherBias globalBias := by
  rw [newBias, newBias]
  cases own.get? item with
  | none => rfl
  | some v => exact congrArg (Except.map Tally.mean?) (tallyRow_among v row others _ _)

/-- The best **global bias** does not depend on strangers, be they listed or have rows. -/
theorem newGlobalBias_among {m : ℕ} (items : List Key) (rows : Table Key (Row ρ))
    (beta : Factors α m) (gamma : Factors α n) (betaBias gammaBias : Option (Table Key (Bias α))) :
    newGlobalBias (beta.among items)
        (rows.restrict (fun i => decide (i ∈ beta)) gamma.amongEntries) beta gamma betaBias
        gammaBias
      = newGlobalBias items rows beta gamma betaBias gammaBias := by
  rw [newGlobalBias, newGlobalBias]
  refine congrArg (Except.map Tally.mean?) ?_
  rw [Table.among, foldlM_kept]
  · congr 1
    funext t i
    cases hi : beta.get? i with
    | none => rfl
    | some v =>
        have hi' : decide (i ∈ beta) = true := decide_eq_true (Table.mem_of_get? hi)
        rw [Table.get?_restrict rows (p := fun i => decide (i ∈ beta)) _ hi']
        cases rows.get? i with
        | none => rfl
        | some row => exact tallyRow_among v row gamma _ t
  · intro t i hi
    rw [Table.get?_of_unknown hi]

end

/-! ### Losses -/

theorem asFeatures_among (W : Factors α n) (ks : List Key) (x : ρ) :
    asFeatures (W.among ks) x = W.amongEntries (asFeatures ks x) := by
  rw [Table.amongEntries, asFeatures, asFeatures, List.filter_map]
  rfl

section

variable {κ : Type} [Scalar α] [Operand ρ α] [Operand κ α] {m : ℕ}

/-- The error of a vector does not depend on strangers among the **features**. -/
theorem sliceLoss_among (v : Vec α m) (others : Factors α n) (features : List (Feature ρ))
    (c₀ c₁ : κ) :
    sliceLoss v others (others.amongEntries features) c₀ c₁
      = sliceLoss v others features c₀ c₁ := by
  rw [sliceLoss, sliceLoss]
  refine bind_congr fun predictions => bind_congr fun c₀ =>
    foldlM_kept (fun s e he => ?_) _ features
  rw [Table.get?_of_unknown he]

/-- The error of a **row** does not depend on strangers in it. -/
theorem rowLoss_among (i : Key) (v : Vec α m) (row : Row ρ) (gamma : Factors α n)
    (betaBias gammaBias : Option (Table Key (Bias α))) (globalBias : κ) (loss : α) :
    rowLoss i v (gamma.amongEntries row) gamma betaBias gammaBias globalBias loss
      = rowLoss i v row gamma betaBias gammaBias globalBias loss := by
  refine foldlM_kept (fun s e he => ?_) loss row
  rw [Table.get?_of_unknown he]

variable [One ρ]

/-- The error of the **preferences** of users does not depend on strangers. -/
theorem preferenceLoss_restrict (userItems : Table Key (List Key)) (beta : Factors α m)
    (theta : Factors α n) (c₀ c₁ : κ) :
    preferenceLoss (ρ := ρ)
        (userSamples (userItems.restrict (fun u => decide (u ∈ theta)) beta.among)) beta theta c₀ c₁
      = preferenceLoss (ρ := ρ) (userSamples userItems) beta theta c₀ c₁ := by
  rw [preferenceLoss, preferenceLoss, userSamples, userSamples, Table.entries_restrict,
    List.map_map, List.foldlM_map, List.foldlM_map, foldlM_kept]
  · congr 1
    funext loss e
    simp only [Function.comp_apply, asFeatures_among, sliceLoss_among]
  · intro loss e he
    simp only [Function.comp_apply, Table.get?_of_unknown he]

/-- The error of the **neighbours' weights** of items does not depend on strangers. -/
theorem neighborLoss_restrict (itemUsers : Table Key (List Key)) (rows : Table Key (Row ρ))
    (f : List Key → List Key) (beta : Factors α m) (gamma : Factors α n)
    (betaBias gammaBias : Option (Table Key (Bias α))) (globalBias : κ) :
    neighborLoss (itemSamples (itemUsers.restrict (fun i => decide (i ∈ beta)) f)
        (rows.restrict (fun i => decide (i ∈ beta)) gamma.amongEntries)) beta gamma betaBias
        gammaBias globalBias
      = neighborLoss (itemSamples itemUsers rows) beta gamma betaBias gammaBias globalBias := by
  rw [neighborLoss, neighborLoss, itemSamples, itemSamples, Table.entries_restrict, List.map_map,
    List.foldlM_map, List.foldlM_map, foldlM_kept]
  · congr 1
    funext loss e
    dsimp only [Function.comp_apply]
    cases hi : beta.get? e.1 with
    | none => rfl
    | some v =>
        dsimp only
        have hi' : decide (e.1 ∈ beta) = true := decide_eq_true (Table.mem_of_get? hi)
        rw [Table.get?_restrict rows (p := fun i => decide (i ∈ beta)) _ hi']
        cases rows.get? e.1 with
        | none => rfl
        | some row => exact rowLoss_among e.1 v row gamma betaBias gammaBias globalBias loss
  · intro loss e he
    simp only [Function.comp_apply, Table.get?_of_unknown he]

end

end CoEmbed
