import CoEmbed.Proofs.Minimum.Basic

/-!
# The Error of Rows

The squared error of the neighbours' weights, as a sum over the contexts of items. Each context has
an error of its own, which depends on the vector of its item, on the vectors of its neighbours, and
on three biases.

* `neighborError` — the error of one row, as a function of the vector of its item.
* `rowSampleError`, `neighborLoss_samples` — the loss is a sum over samples.
* `neighborLoss_contexts`, `neighborLoss_context` — the samples that are contexts of items.
* `Carries`, `Carries.neighborLoss_eq` — where each item has one context, a sum over items.
* `SymmetricOn`, `SymmetricOn.sum_row_eq_sum_column` — items stand in each other's rows alike, so a
  sum over a row is one over a column.
* `Entangled` — two such items.

## Context convention

A context of a key without a vector may say anything, and what a context says of its users is not
looked at here.
-/

open Matrix

namespace CoEmbed

variable {n : ℕ}

/-- The squared **error of the weights in a row**, as a function of the vector of its item. -/
noncomputable def neighborError (gamma : Factors ℝ n)
    (betaBias gammaBias : Option (Table Key (Bias ℝ))) (globalBias : ℝ) (i : Key) (row : Row ℝ)
    (x : Fin n → ℝ) : ℝ :=
  ∑ j ∈ gamma.domain, ((weightsOf row j).map fun w =>
    (restOf betaBias gammaBias globalBias i j w - gamma.vectorAt j ⬝ᵥ x) ^ 2).sum

section

variable (beta gamma : Factors ℝ n) (betaBias gammaBias : Option (Table Key (Bias ℝ)))
  (globalBias : ℝ)

/-- The error of a row is **quadratic in the vector of its item**. -/
theorem isQuadratic_neighborError (i : Key) (row : Row ℝ) :
    IsQuadratic (neighborError gamma betaBias gammaBias globalBias i row) (rowMatrix gamma row)
      (rowTarget gamma row (restOf betaBias gammaBias globalBias i)) := by
  rw [rowMatrix_eq_sum, rowTarget_eq_sum]
  exact IsQuadratic.sum gamma.domain fun j _ =>
    isQuadratic_weights (weightsOf row j) (restOf betaBias gammaBias globalBias i j)
      (gamma.vectorAt j)

/-- What **one context** of an item adds to the error of those before it. -/
theorem add_neighborError (loss : ℝ) (i : Key) (row : Option (Row ℝ)) :
    (match beta.get? i with
      | none => .ok loss
      | some v => rowLoss i v (row.getD []) gamma betaBias gammaBias globalBias loss :
        Except Fault ℝ)
      = .ok (loss + if i ∈ beta then
          neighborError gamma betaBias gammaBias globalBias i (row.getD []) (beta.vectorAt i)
        else 0) := by
  cases hv : beta.get? i with
  | none => rw [if_neg (Table.get?_eq_none_iff.1 hv), add_zero]
  | some v =>
      rw [if_pos (Table.mem_of_get? hv), Factors.vectorAt_of_get? hv]
      dsimp only
      rw [rowLoss_eq, neighborError]
      refine congrArg (fun x => Except.ok (loss + x)) (Finset.sum_congr rfl fun j _ => ?_)
      refine congrArg List.sum (List.map_congr_left fun w _ => ?_)
      rw [restOf, dotProduct_comm]
      ring

/-- The error of the **neighbours' weights** in one sample. -/
noncomputable def rowSampleError : Sample ℝ → ℝ
  | .item i _ row => if i ∈ beta then
      neighborError gamma betaBias gammaBias globalBias i (row.getD []) (beta.vectorAt i) else 0
  | .user _ _ => 0
  | .foreign _ => 0

/-- The error of the neighbours' weights is a **sum over samples**. -/
theorem neighborLoss_samples {samples : List (Sample ℝ)} (h : ∀ s ∈ samples, s.Known) :
    neighborLoss samples beta gamma betaBias gammaBias globalBias
      = .ok (samples.map (rowSampleError beta gamma betaBias gammaBias globalBias)).sum := by
  rw [neighborLoss, foldlM_ok_add _ (rowSampleError beta gamma betaBias gammaBias globalBias),
    zero_add]
  intro loss s hs
  cases s with
  | user u features => rw [rowSampleError, add_zero]
  | item i features row =>
      rw [rowSampleError, ← add_neighborError]
      dsimp only
      cases beta.get? i <;> rfl
  | foreign t => exact (h _ hs).elim

/-- The loss on the neighbours' weights is a **sum over contexts**; strangers add nothing. -/
theorem neighborLoss_contexts (contexts : List (Key × List (Feature ℝ) × Option (Row ℝ))) :
    neighborLoss (contexts.map fun e => Sample.item e.1 e.2.1 e.2.2) beta gamma betaBias gammaBias
        globalBias
      = .ok (contexts.map fun e => if e.1 ∈ beta then
          neighborError gamma betaBias gammaBias globalBias e.1 (e.2.2.getD [])
            (beta.vectorAt e.1) else 0).sum := by
  have hknown : ∀ s ∈ contexts.map fun e => Sample.item e.1 e.2.1 e.2.2, s.Known :=
    List.forall_mem_map.2 fun _ _ => trivial
  rw [neighborLoss_samples beta gamma betaBias gammaBias globalBias hknown, List.map_map]
  rfl

/-- The loss on **one context** of a registered item is the error of its row. -/
theorem neighborLoss_context {beta : Factors ℝ n} {i : Key} (hi : i ∈ beta)
    (features : List (Feature ℝ)) (row : Option (Row ℝ)) :
    neighborLoss [Sample.item i features row] beta gamma betaBias gammaBias globalBias
      = .ok (neighborError gamma betaBias gammaBias globalBias i (row.getD [])
          (beta.vectorAt i)) := by
  have h := neighborLoss_contexts beta gamma betaBias gammaBias globalBias [(i, features, row)]
  rw [List.map_singleton, List.map_singleton, List.sum_singleton, if_pos hi] at h
  exact h

end

/-- Each key of a table has **one context**, which carries the row of the key. -/
structure Carries (beta : Factors ℝ n) (rows : Table Key (Row ℝ))
    (contexts : List (Key × List (Feature ℝ) × Option (Row ℝ))) : Prop where
  one : ∀ i ∈ beta, (contexts.map Prod.fst).count i = 1
  row : ∀ e ∈ contexts, e.1 ∈ beta → e.2.2 = rows.get? e.1

/-- Where each item has one context, the loss on the neighbours' weights is a **sum over items**. -/
theorem Carries.neighborLoss_eq {beta : Factors ℝ n} {rows : Table Key (Row ℝ)}
    {contexts : List (Key × List (Feature ℝ) × Option (Row ℝ))}
    (h : Carries beta rows contexts) (gamma : Factors ℝ n)
    (betaBias gammaBias : Option (Table Key (Bias ℝ))) (globalBias : ℝ) :
    neighborLoss (contexts.map fun e => Sample.item e.1 e.2.1 e.2.2) beta gamma betaBias gammaBias
        globalBias
      = .ok (∑ i ∈ beta.domain, neighborError gamma betaBias gammaBias globalBias i
          ((rows.get? i).getD []) (beta.vectorAt i)) := by
  let term (i : Key) (e : List (Feature ℝ) × Option (Row ℝ)) : ℝ := if i ∈ beta then
    neighborError gamma betaBias gammaBias globalBias i (e.2.getD []) (beta.vectorAt i) else 0
  have hsum := sum_map_eq_sum_weightsOf beta.domain contexts term fun i hi _ =>
    if_neg fun hmem => hi (Table.mem_domain.2 hmem)
  rw [neighborLoss_contexts]
  refine congrArg Except.ok (hsum.trans (Finset.sum_congr rfl fun i hi => ?_))
  have hi := Table.mem_domain.1 hi
  obtain ⟨e, hsingle, hmem⟩ := exists_weightsOf_eq_singleton (h.one i hi)
  rw [hsingle, List.map_singleton, List.sum_singleton, ← h.row _ hmem hi]
  exact if_pos hi

/-- The rows are **symmetric on the keys of a table**: one of them stands in the row of another with
some weight as often as the other one stands in its row. -/
def SymmetricOn (beta : Factors ℝ n) (rows : Table Key (Row ℝ)) : Prop :=
  ∀ i ∈ beta, ∀ j ∈ beta, ∀ w,
    ((rows.get? i).getD []).count (j, w) = ((rows.get? j).getD []).count (i, w)

/-- With symmetric rows two items have the **same weights** for one another. -/
theorem SymmetricOn.weightsOf_perm {beta : Factors ℝ n} {rows : Table Key (Row ℝ)}
    (h : SymmetricOn beta rows) {i j : Key} (hi : i ∈ beta) (hj : j ∈ beta) :
    (weightsOf ((rows.get? i).getD []) j).Perm (weightsOf ((rows.get? j).getD []) i) := by
  rw [List.perm_iff_count]
  intro w
  rw [count_weightsOf, count_weightsOf]
  exact h i hi j hj w

/-- With symmetric rows a sum over the **row** of an item is one over its **column**. -/
theorem SymmetricOn.sum_row_eq_sum_column {M : Type*} [AddCommMonoid M] {beta : Factors ℝ n}
    {rows : Table Key (Row ℝ)} (h : SymmetricOn beta rows) {i : Key} (hi : i ∈ beta)
    (f : Key → ℝ → M) :
    ∑ j ∈ beta.domain, ((weightsOf ((rows.get? i).getD []) j).map (f j)).sum
      = ∑ j ∈ beta.domain, ((weightsOf ((rows.get? j).getD []) i).map (f j)).sum :=
  Finset.sum_congr rfl fun j hj =>
    ((h.weightsOf_perm hi (Table.mem_domain.1 hj)).map (f j)).sum_eq

/-! ### An example -/

namespace Entangled

/-- Two items that list each other twice. One of them lists itself and a **stranger** as well. -/
noncomputable def rows : Table Key (Row ℝ) := Table.ofList
  [(.text "a", [(.text "a", (2 : ℕ)), (.text "nobody", 1), (.text "b", 1), (.text "b", 1)]),
   (.text "b", [(.text "a", 1), (.text "a", 1)])]

/-- The contexts of the two items, and one of the stranger that carries no row. -/
noncomputable def contexts : List (Key × List (Feature ℝ) × Option (Row ℝ)) :=
  [(.text "a", [], rows.get? (.text "a")), (.text "nobody", [], none),
   (.text "b", [], rows.get? (.text "b"))]

/-- The vectors of the two items. -/
noncomputable def beta : Factors ℝ 1 := Table.ofList
  [(.text "a", Vector.singleton 1), (.text "b", Vector.singleton (-1))]

theorem mem_beta {k : Key} : k ∈ beta ↔ k = .text "a" ∨ k = .text "b" := by
  rw [Table.mem_iff]
  exact List.mem_pair

theorem symmetricOn : SymmetricOn beta rows := by
  have ha : (rows.get? (.text "a")).getD []
      = [(.text "a", ((2 : ℕ) : ℝ)), (.text "nobody", 1), (.text "b", 1), (.text "b", 1)] := rfl
  have hb : (rows.get? (.text "b")).getD [] = [(.text "a", 1), (.text "a", 1)] := rfl
  intro i hi j hj w
  rcases mem_beta.1 hi with rfl | rfl <;> rcases mem_beta.1 hj with rfl | rfl
  · rfl
  · rw [ha, hb]
    simp [List.count_cons]
  · rw [ha, hb]
    simp [List.count_cons]
  · rfl

theorem carries : Carries beta rows contexts where
  one := by
    intro i hi
    rcases mem_beta.1 hi with rfl | rfl <;> decide
  row := by
    intro e he hmem
    rcases List.mem_cons.1 he with rfl | he
    · rfl
    rcases List.mem_cons.1 he with rfl | he
    · exact absurd (mem_beta.1 hmem) (by decide)
    · rw [List.mem_singleton.1 he]

end Entangled

end CoEmbed
