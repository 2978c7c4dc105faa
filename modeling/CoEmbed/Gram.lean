import CoEmbed.Weights

/-!
# Gram Matrices of Parameter Vectors

With the vectors of one side fixed, the vectors of the other side solve linear systems whose
matrices are sums of outer products over the fixed side.

* `Factors.present` — the vectors of those keys of a list that have one.
* `Factors.gram`, `Factors.gramOn` — the weighted Gram matrix over all keys, and over a list
  of keys.
* `Factors.background` — the part of a system that all rows of a sweep share.
* `solveSystem` — the solution of a system, or the defect that stands in its way.

## Key convention

A key without a vector contributes nothing, and a key that is listed twice contributes
twice.
-/

namespace CoEmbed

variable {α : Type} {n : Nat}

namespace Factors

/-- The vectors of those keys of a list that **have one**, in the order of the list. -/
def present (W : Factors α n) (ks : List Key) : List (Vec α n) := ks.filterMap W.get?

theorem present_append (W : Factors α n) (ks ls : List Key) :
    W.present (ks ++ ls) = W.present ks ++ W.present ls := by
  simp [present, List.filterMap_append]

variable [Scalar α]

/-- The Gram matrix of **all vectors** of a table, times `c`. -/
def gram (W : Factors α n) (c : α) : Mat α n n := Mat.smul c (Mat.gram W.values)

/-- The Gram matrix of the vectors of a **list of keys**, times `c`; zero if none of the
keys has a vector. -/
def gramOn (W : Factors α n) (ks : List Key) (c : α) : Mat α n n :=
  match W.present ks with
  | [] => Mat.zero
  | vs => Mat.smul c (Mat.gram vs)

/-- The **background** of a sweep: every vector of the fixed side, each with confidence `c`,
and the ridge along the diagonal. -/
def background (W : Factors α n) (c ridge : α) : Mat α n n := Mat.addRidge (W.gram c) ridge

end Factors

variable [Scalar α]

/-- **Solves** a positive definite system whose entries are finite. -/
def solveSystem (M : Mat α n n) (b : Vec α n) : Except Fault (Vec α n) :=
  if !(Mat.finite M && Vec.finite b) then .error (.system .nonFinite)
  else match Triangle.ofMat M with
    | .ok R => .ok (R.solve b)
    | .error k => .error (.system (.notPositiveDefinite k))

end CoEmbed
