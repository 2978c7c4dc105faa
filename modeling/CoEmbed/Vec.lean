import CoEmbed.Scalar

/-!
# Vectors and Matrices

Vectors carry their length in their type, so a parameter vector of a model with `n` latent
factors is a `Vec α n` and nothing else; matrices are vectors of rows.

* `Vec.dot`, `Vec.normSq`, `Vec.norm` — the inner product and what follows from it.
* `Vec.pairing` — the inner product of two vectors whose lengths are known only when the
  program runs; `Vec.pairing_self` says that it never fails where the types agree.
* `Mat.gram` — the sum of the outer products `v vᵀ` over a list of vectors.
* `Mat.addRidge` — the matrix with a constant added along the diagonal.

## Entry convention

Each operation is given by its entries, and the lemmas `Vec.getElem_…` and `Mat.getElem_…`
say so; nothing else about the representation is used outside this module.
-/

namespace CoEmbed

/-- A vector with `n` coordinates. -/
abbrev Vec (α : Type) (n : Nat) := Vector α n

/-- A matrix with `m` rows and `n` columns, as the vector of its rows. -/
abbrev Mat (α : Type) (m n : Nat) := Vector (Vector α n) m

variable {α : Type} {m n : Nat}

namespace Vec

/-- The vector of a list with as many entries as are asked for, if it has so many. -/
def ofList? (n : Nat) (xs : List α) : Option (Vec α n) :=
  if h : xs.length = n then some ⟨xs.toArray, by simpa using h⟩ else none

/-- The entry at an index. -/
def entry (v : Vec α n) (i : Fin n) : α := v[i]

@[simp] theorem entry_eq (v : Vec α n) (i : Fin n) : entry v i = v[i] := rfl

variable [Scalar α]

/-- The zero vector. -/
def zero : Vec α n := Vector.ofFn fun _ => 0

/-- The entrywise sum. -/
def add (u v : Vec α n) : Vec α n := Vector.ofFn fun i => u[i] + v[i]

/-- The entrywise product with a scalar. -/
def smul (c : α) (v : Vec α n) : Vec α n := Vector.ofFn fun i => c * v[i]

/-- `u + c · v`, entry by entry. -/
def addScaled (u : Vec α n) (c : α) (v : Vec α n) : Vec α n :=
  Vector.ofFn fun i => u[i] + c * v[i]

/-- The **inner product** of two vectors. -/
@[specialize] def dot (u v : Vec α n) : α := Scalar.sum fun i : Fin n => u[i] * v[i]

/-- The inner product of a vector with itself. -/
def normSq (v : Vec α n) : α := dot v v

/-- The Euclidean length. -/
def norm (v : Vec α n) : α := Scalar.sqrt (normSq v)

/-- The entrywise quotient by a scalar. -/
def divide (v : Vec α n) (c : α) : Vec α n := Vector.ofFn fun i => v[i] / c

/-- Every entry is finite. -/
def finite (v : Vec α n) : Bool := v.toList.all Scalar.finite

/-- The entries after the first. -/
def tail (v : Vec α (n + 1)) : Vec α n := Vector.ofFn fun i => v[i.succ]

/-- The vector with one more entry in front. -/
def cons (a : α) (v : Vec α n) : Vec α (n + 1) := Vector.ofFn (Fin.cases a fun i => v[i])

/-- The inner product of two vectors whose lengths need not agree; `none` when they do
not. -/
def pairing {k : Nat} (u : Vec α n) (v : Vec α k) : Option α :=
  if h : k = n then some (dot u (h ▸ v)) else none

/-- Vectors of one length always have an inner product. -/
@[simp] theorem pairing_self (u v : Vec α n) : pairing u v = some (dot u v) := by
  simp [pairing]

/-- Vectors of two lengths never have one. -/
theorem pairing_eq_none {k : Nat} (u : Vec α n) (v : Vec α k) (h : k ≠ n) :
    pairing u v = none := by
  simp [pairing, h]

@[simp] theorem getElem_zero (i : Nat) (h : i < n) : (zero : Vec α n)[i] = 0 := by
  simp [zero]

@[simp] theorem getElem_add (u v : Vec α n) (i : Nat) (h : i < n) :
    (add u v)[i] = u[i] + v[i] := by
  simp [add]

@[simp] theorem getElem_smul (c : α) (v : Vec α n) (i : Nat) (h : i < n) :
    (smul c v)[i] = c * v[i] := by
  simp [smul]

@[simp] theorem getElem_addScaled (u : Vec α n) (c : α) (v : Vec α n) (i : Nat) (h : i < n) :
    (addScaled u c v)[i] = u[i] + c * v[i] := by
  simp [addScaled]

@[simp] theorem getElem_divide (v : Vec α n) (c : α) (i : Nat) (h : i < n) :
    (divide v c)[i] = v[i] / c := by
  simp [divide]

end Vec

namespace Mat

/-- The matrix with the given entries. -/
def ofFn (f : Fin m → Fin n → α) : Mat α m n := Vector.ofFn fun i => Vector.ofFn (f i)

/-- The entry at a row and a column. -/
def entry (A : Mat α m n) (i : Fin m) (j : Fin n) : α := A[i][j]

@[simp] theorem entry_eq (A : Mat α m n) (i : Fin m) (j : Fin n) : entry A i j = A[i][j] := rfl

@[simp] theorem getElem_ofFn (f : Fin m → Fin n → α) (i j : Nat) (hi : i < m) (hj : j < n) :
    (ofFn f)[i][j] = f ⟨i, hi⟩ ⟨j, hj⟩ := by
  simp [ofFn]

/-- The `j`-th column. -/
def column (M : Mat α m n) (j : Fin n) : Vec α m := Vector.ofFn fun i => M[i][j]

variable [Scalar α]

/-- The zero matrix. -/
def zero : Mat α m n := ofFn fun _ _ => 0

/-- The entrywise sum. -/
def add (A B : Mat α m n) : Mat α m n := ofFn fun i j => A[i][j] + B[i][j]

/-- The entrywise product with a scalar. -/
def smul (c : α) (A : Mat α m n) : Mat α m n := ofFn fun i j => c * A[i][j]

/-- The **Gram matrix** of a list of vectors: its entry at `(i, j)` is the sum of
`v i * v j` over the list. -/
@[specialize] def gram (vs : List (Vec α n)) : Mat α n n :=
  ofFn fun i j => vs.foldl (fun s v => s + v[i] * v[j]) 0

/-- The matrix with `c` added to every diagonal entry. -/
def addRidge (A : Mat α n n) (c : α) : Mat α n n :=
  ofFn fun i j => if i = j then A[i][j] + c else A[i][j]

/-- The product of a matrix and a vector. -/
def mulVec (A : Mat α m n) (v : Vec α n) : Vec α m := Vector.ofFn fun i => Vec.dot A[i] v

/-- Every entry is finite. -/
def finite (A : Mat α m n) : Bool := A.toList.all Vec.finite

@[simp] theorem getElem_zero (i j : Nat) (hi : i < m) (hj : j < n) :
    (zero : Mat α m n)[i][j] = 0 := by
  simp [zero]

@[simp] theorem getElem_add (A B : Mat α m n) (i j : Nat) (hi : i < m) (hj : j < n) :
    (add A B)[i][j] = A[i][j] + B[i][j] := by
  simp [add]

@[simp] theorem getElem_smul (c : α) (A : Mat α m n) (i j : Nat) (hi : i < m) (hj : j < n) :
    (smul c A)[i][j] = c * A[i][j] := by
  simp [smul]

@[simp] theorem getElem_gram (vs : List (Vec α n)) (i j : Nat) (hi : i < n) (hj : j < n) :
    (gram vs)[i][j] = vs.foldl (fun s v => s + v[i] * v[j]) 0 := by
  simp [gram]

@[simp] theorem getElem_addRidge (A : Mat α n n) (c : α) (i j : Nat) (hi : i < n) (hj : j < n) :
    (addRidge A c)[i][j] = if i = j then A[i][j] + c else A[i][j] := by
  simp [addRidge]

end Mat

end CoEmbed
