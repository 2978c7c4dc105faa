import CoEmbed.Cholesky
import CoEmbed.Setting

/-!
# Arrays of Any Shape

Data that come from outside are nested lists. What they hold is known only once they have
been read: a vector, a matrix, or something that is neither.

* `Nested` — a nested list of scalars.
* `Tensor` — a shape and the entries in reading order.
* `Tensor.ofNested` — the array of a nested list whose lists agree in length.
* `Tensor.dot`, `Tensor.norm`, `Tensor.plus`, `Tensor.addScaled`, `Tensor.addRidge`,
  `Tensor.solve` — the operations of vectors and matrices, with the faults of operands that
  do not fit.

## Shape convention

Operands that do not fit are faults of value. A product whose outcome would not be a scalar
is a fault of type, and it is looked for after the lengths have been compared. A factor that
is not a scalar is looked for after the shapes have been compared. An array has no more than
sixty-four axes.
-/

namespace CoEmbed

/-- A **nested list** of scalars. -/
inductive Nested (α : Type) where
  | leaf (x : α)
  | node (xs : List (Nested α))
  deriving Inhabited

/-- Entries in reading order, and the **shape** they are read in. -/
structure Tensor (α : Type) where
  shape : List Nat
  entries : List α

namespace Tensor

variable {α : Type}

/-- The greatest number of axes. -/
def mostAxes : Nat := 64

/-- Joins arrays of one shape along a new first axis. -/
def stack : List (Tensor α) → Except Fault (Tensor α)
  | [] => .ok ⟨[0], []⟩
  | t :: ts =>
    if t.shape.length < mostAxes && ts.all fun u => u.shape = t.shape then
      .ok ⟨(ts.length + 1) :: t.shape, (t :: ts).flatMap (·.entries)⟩
    else .error .badValue

/-- The **array of a nested list**. -/
def ofNested : Nested α → Except Fault (Tensor α)
  | .leaf x => .ok ⟨[], [x]⟩
  | .node xs => do stack (← xs.mapM ofNested)

/-- The vector of an array with one axis. -/
def vector? (t : Tensor α) : Option ((n : Nat) × Vec α n) :=
  match t.shape with
  | [n] => (Vec.ofList? n t.entries).map fun v => ⟨n, v⟩
  | _ => none

/-- The matrix with the given rows, cut out of a list of entries. -/
def cut (m n : Nat) (xs : List α) : Option (Mat α m n) :=
  match m with
  | 0 => some ⟨#[], rfl⟩
  | m + 1 => do
    let row ← Vec.ofList? n (xs.take n)
    let rest ← cut m n (xs.drop n)
    return ⟨#[row] ++ rest.toArray, by simp; omega⟩

/-- The matrix of an array with two axes. -/
def matrix? (t : Tensor α) : Option ((m n : Nat) × Mat α m n) :=
  match t.shape with
  | [m, n] => (cut m n t.entries).map fun A => ⟨m, n, A⟩
  | _ => none

/-- The array with axes of length one **in front**, until there are two axes. -/
def asRows (t : Tensor α) : Tensor α :=
  ⟨List.replicate (2 - t.shape.length) 1 ++ t.shape, t.entries⟩

/-- The array of a vector. -/
def ofVec {n : Nat} (v : Vec α n) : Tensor α := ⟨[n], v.toList⟩

/-- The array of a matrix. -/
def ofMat {m n : Nat} (A : Mat α m n) : Tensor α := ⟨[m, n], A.toList.flatMap (·.toList)⟩

/-- The nested list of entries in reading order; the last axis but one says how many lists
there are, also where they are empty. -/
def nest : List Nat → List α → Nested α
  | [], xs => match xs with
    | x :: _ => .leaf x
    | [] => .node []
  | n :: shape, xs =>
    let size := shape.foldr (· * ·) 1
    .node ((List.range n).map fun i => nest shape ((xs.drop (i * size)).take size))

/-- The nested list of an array. -/
def toNested (t : Tensor α) : Nested α := nest t.shape t.entries

section

variable [Scalar α]

/-- The axis that a product sums over has the same length on both sides. -/
def aligned (s t : List Nat) : Bool :=
  match s.getLast?, t.reverse with
  | some n, [m] => n = m
  | some n, _ :: m :: _ => n = m
  | _, _ => true

/-- The **inner product** of two vectors. -/
def dot (s t : Tensor α) : Except Fault α :=
  match s.vector?, t.vector? with
  | some ⟨_, u⟩, some ⟨_, v⟩ => match Vec.pairing u v with
    | some x => .ok x
    | none => .error .badValue
  | _, _ => match s, t with
    | ⟨[], [a]⟩, ⟨[], [b]⟩ => .ok (a * b)
    | _, _ => .error (if aligned s.shape t.shape then .badType else .badValue)

/-- The **length** of a vector. -/
def norm (t : Tensor α) : Except Fault α := (dot t t).map Scalar.sqrt

/-- The shape that two shapes spread to, both read from the last axis: an axis of length
one, or none, is repeated. -/
def spreadShape : List Nat → List Nat → Option (List Nat)
  | [], t => some t
  | s, [] => some s
  | m :: s, n :: t =>
    if m = n ∨ n = 1 then (spreadShape s t).map (m :: ·)
    else if m = 1 then (spreadShape s t).map (n :: ·)
    else none

/-- The place, in an array whose axes are given from the last one, of the entry with the
given indices. -/
def place : List Nat → List Nat → Nat
  | n :: shape, i :: is => (if n = 1 then 0 else i) + n * place shape is
  | _, _ => 0

/-- The indices, from the last axis, of a place in an array of the given shape. -/
def indices : List Nat → Nat → List Nat
  | [], _ => []
  | n :: shape, k => (k % n) :: indices shape (k / n)

/-- The **entrywise sum**, with axes of length one repeated. -/
def plus (s t : Tensor α) : Except Fault (Tensor α) :=
  match spreadShape s.shape.reverse t.shape.reverse with
  | none => .error .badValue
  | some shape =>
    let entry (u : Tensor α) (k : Nat) : α :=
      u.entries.getD (place u.shape.reverse (indices shape k)) 0
    .ok ⟨shape.reverse,
      (List.range (shape.foldr (· * ·) 1)).map fun k => entry s k + entry t k⟩

/-- Every entry is finite. -/
def finite (t : Tensor α) : Bool := t.entries.all Scalar.finite

/-- The square matrix of an array; an array without entries and axes to speak of is the
empty system. -/
def square? (t : Tensor α) : Option ((n : Nat) × Mat α n n) :=
  if t.shape = [0] then some ⟨0, ⟨#[], rfl⟩⟩
  else match t.asRows.matrix? with
    | some ⟨m, n, A⟩ => if h : n = m then some ⟨m, (h ▸ A : Mat α m m)⟩ else none
    | none => none

/-- **Solves** `M x = b` for a positive definite `M`, column by column if `b` is a matrix.
The entries are looked at first, then the shape of `M`, its pivots, and the shape of `b`. -/
def solve (M b : Tensor α) : Except Fault (Tensor α) := do
  unless M.finite && b.finite do throw (.system .nonFinite)
  let some ⟨n, A⟩ := M.square? | throw .badValue
  match Triangle.ofMat A with
  | .error k => throw (.system (.notPositiveDefinite k))
  | .ok R =>
    match b.vector?, b.matrix? with
    | some ⟨m, v⟩, _ =>
      if h : m = n then return ofVec (R.solve (h ▸ v : Vec α n)) else throw .badValue
    | none, some ⟨m, k, B⟩ =>
      if h : m = n then
        let columns : Vector (Vec α n) k :=
          Vector.ofFn fun j => R.solve (Mat.column (h ▸ B : Mat α n k) j)
        return ofMat (Mat.ofFn fun (i : Fin n) (j : Fin k) => Vec.entry (columns.get j) i)
      else throw .badValue
    | none, none => throw (if b.shape = [] then .outOfRange else .badValue)

end

variable [Numeral α]

/-- `s + c · t` for two arrays of one shape. -/
def addScaled (s : Tensor α) (c : Setting α) (t : Tensor α) : Except Fault (Tensor α) := do
  if s.shape = t.shape then
    let c ← c.scale
    return ⟨s.shape, List.zipWith (fun a b => a + c * b) s.entries t.entries⟩
  else throw (.shapes s.shape t.shape)

/-- The distance between neighbouring entries of a **diagonal**. -/
def diagonalStep (shape : List Nat) : Nat := shape.foldl (fun step n => step * n + 1) 0

/-- An array with two or more axes of one length, and a constant added **along its
diagonal**. -/
def addRidge (t : Tensor α) (c : Setting α) : Except Fault (Tensor α) :=
  match t.shape with
  | n :: m :: rest =>
    if (m :: rest).all (· = n) then do
      let c ← c.addend
      let step := diagonalStep t.shape
      return ⟨t.shape, t.entries.mapIdx fun k x => if k % step = 0 then x + c else x⟩
    else .error .badValue
  | _ => .error .badValue

end Tensor

end CoEmbed
