import CoEmbed.Vec

/-!
# Cholesky Factorisation

Symmetric positive definite systems are solved by an upper triangular factor `R` with
`Rᵀ R = M` and two triangular substitutions.

* `Triangle` — an upper triangular matrix, given by its first row and the triangle below it.
* `Triangle.ofMat` — the factor of a matrix, or the place of the first pivot that is not
  positive.
* `Triangle.forward`, `Triangle.backward` — the substitutions for `Rᵀ y = b` and `R x = y`.
* `Triangle.solve` — both substitutions, one after the other.

## Triangle convention

The factorisation eliminates the first row and goes on with the Schur complement of its
pivot. It reads a matrix on and above the diagonal only: entries below the diagonal feed
nothing but entries below the diagonal of the complement. The places of pivots are counted
from one.
-/

namespace CoEmbed

/-- An **upper triangular** matrix: the diagonal entry of its first row, the rest of that
row, and the triangle that remains. -/
inductive Triangle (α : Type) : Nat → Type where
  | nil : Triangle α 0
  | cons {n : Nat} (pivot : α) (row : Vec α n) (rest : Triangle α n) : Triangle α (n + 1)

namespace Triangle

variable {α : Type} [Scalar α]

/-- What is left of a matrix once its first row, divided by `r`, has been eliminated. -/
def complement {n : Nat} (M : Mat α (n + 1) (n + 1)) (row : Vec α n) : Mat α n n :=
  Mat.ofFn fun i j => Mat.entry M i.succ j.succ - Vec.entry row i * Vec.entry row j

/-- The **Cholesky factor** of a matrix, or the place of the first pivot that is not
positive. -/
def ofMat : {n : Nat} → Mat α n n → Except Nat (Triangle α n)
  | 0, _ => .ok .nil
  | n + 1, M =>
    let pivot : α := Mat.entry M 0 0
    if Scalar.lt 0 pivot then
      let r := Scalar.sqrt pivot
      let row : Vec α n := Vec.divide (Vec.tail (M.get 0)) r
      match ofMat (complement M row) with
      | .ok rest => .ok (.cons r row rest)
      | .error k => .error (k + 1)
    else .error 1

/-- Solves `Rᵀ y = b`, from the first coordinate on. -/
def forward : {n : Nat} → Triangle α n → Vec α n → Vec α n
  | _, .nil, b => b
  | _ + 1, .cons r row rest, b =>
    let y := Vec.entry b 0 / r
    Vec.cons y (forward rest (Vec.addScaled (Vec.tail b) (-y) row))

/-- Solves `R x = y`, from the last coordinate back. -/
def backward : {n : Nat} → Triangle α n → Vec α n → Vec α n
  | _, .nil, y => y
  | _ + 1, .cons r row rest, y =>
    let x := backward rest (Vec.tail y)
    Vec.cons ((Vec.entry y 0 - Vec.dot row x) / r) x

/-- Solves `Rᵀ R x = b`. -/
def solve {n : Nat} (R : Triangle α n) (b : Vec α n) : Vec α n := backward R (forward R b)

end Triangle

end CoEmbed
