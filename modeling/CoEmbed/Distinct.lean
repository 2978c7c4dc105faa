/-!
# Distinct Members

The members of a list, each once, in the order in which they first occur.

* `distinct` — the list of the distinct members.
* `mem_distinct`, `nodup_distinct` — it has the same members, and none of them twice.
* `filter_distinct`, `distinct_append` — the distinct members of a part, and of two lists.
-/

namespace CoEmbed

variable {κ : Type} [DecidableEq κ]

/-- The members of a list, **each once**, in order of first occurrence. -/
def distinct : List κ → List κ
  | [] => []
  | x :: xs => x :: (distinct xs).filter fun y => decide (y ≠ x)

@[simp] theorem mem_distinct {x : κ} {xs : List κ} : x ∈ distinct xs ↔ x ∈ xs := by
  induction xs with
  | nil => simp [distinct]
  | cons y ys ih => by_cases h : x = y <;> simp [distinct, ih, h]

theorem nodup_distinct (xs : List κ) : (distinct xs).Nodup := by
  induction xs with
  | nil => simp [distinct]
  | cons x xs ih =>
    rw [distinct, List.nodup_cons]
    exact ⟨by simp, ih.sublist List.filter_sublist⟩

/-- A list without repetitions is its own list of distinct members. -/
theorem distinct_of_nodup {xs : List κ} (h : xs.Nodup) : distinct xs = xs := by
  induction xs with
  | nil => rfl
  | cons x xs ih =>
    rw [List.nodup_cons] at h
    rw [distinct, ih h.2, List.filter_eq_self.2]
    intro y hy
    simpa using fun e : y = x => h.1 (e ▸ hy)

/-- A part of the distinct members consists of the distinct members **of the part**. -/
theorem filter_distinct (c : κ → Bool) (xs : List κ) :
    (distinct xs).filter c = distinct (xs.filter c) := by
  induction xs with
  | nil => rfl
  | cons x xs ih =>
    have hcomm : ((distinct xs).filter fun y => decide (y ≠ x)).filter c
        = ((distinct xs).filter c).filter fun y => decide (y ≠ x) := by
      simp only [List.filter_filter, Bool.and_comm]
    rw [distinct, List.filter_cons, hcomm, ih]
    by_cases hx : c x = true
    · rw [if_pos hx, List.filter_cons_of_pos hx, distinct]
    · rw [if_neg hx, List.filter_cons_of_neg hx, List.filter_eq_self]
      intro y hy
      refine decide_eq_true fun h => hx ?_
      exact h ▸ (List.mem_filter.1 (mem_distinct.1 hy)).2

/-- The distinct members of two lists are those of the first, and then **those of the second that
the first does not have**. -/
theorem distinct_append (xs ys : List κ) :
    distinct (xs ++ ys) = distinct xs ++ (distinct ys).filter fun y => decide (y ∉ xs) := by
  induction xs with
  | nil => exact (List.filter_eq_self.2 fun y _ => by simp).symm
  | cons x xs ih =>
    rw [List.cons_append, distinct, distinct, ih, List.filter_append, List.filter_filter,
      List.cons_append]
    congr 3
    funext y
    simp

/-- Taking the distinct members of a first part beforehand makes **no difference**. -/
theorem distinct_distinct_append (xs ys : List κ) :
    distinct (distinct xs ++ ys) = distinct (xs ++ ys) := by
  rw [distinct_append, distinct_append, distinct_of_nodup (nodup_distinct xs)]
  simp

end CoEmbed
