import CoEmbed.Setting
import CoEmbed.Table
import CoEmbed.Vec

/-!
# Shifted Positive Pointwise Mutual Information

Two items are neighbours if more users have both than chance would have it. Of the counts
`n i j` of common users, their row sums `n i` and their total `D`, the weight of the pair is
`log (n i j * D / (n i * n j)) - log s` where that is positive.

* `cooccurrence` — the numbers of common users, item by item: a Gram matrix without its diagonal.
* `sppmi` — the weights, for a positive shift `s`.
* `rowsOfMatrix` — the rows of weighted neighbours that a matrix of weights holds.
* `sppmiRows` — all three steps, from the interactions of the users.

## Storage convention

An entry that is zero is not stored: it is neither looked at nor listed. A weight that is
not a number is stored, since it is not below zero either.
-/

namespace CoEmbed

variable {α : Type} {m n : Nat}

section

variable [Scalar α]

/-- An entry that is **stored**. -/
def isStored (x : α) : Bool := !Scalar.eq x 0

/-- The stored entries of a matrix, each with its row and its column, row by row. -/
def storedEntries (A : Mat α m n) : List (Nat × Nat × α) :=
  (List.finRange m).flatMap fun i =>
    ((List.finRange n).filter fun j => isStored (A.entry i j)).map fun j =>
      (i.val, j.val, A.entry i j)

/-- The vector with a one for every **positive** entry, and a zero for every other. -/
def positives (v : Vec α n) : Vec α n :=
  Vector.ofFn fun i => if Scalar.lt 0 (v.entry i) then 1 else 0

/-- The matrix with its diagonal **taken away**. -/
def offDiagonal (A : Mat α n n) : Mat α n n :=
  Mat.ofFn fun i j => A.entry i j - if i = j then A.entry i j else 0

/-- The **counts of common users** of each two different items; an interaction is a positive
entry. -/
def cooccurrence (users : List (Vec α m)) : Mat α m m :=
  offDiagonal (Mat.gram (users.map positives))

/-- The sum of a row. -/
def rowSum (C : Mat α m n) (i : Fin m) : α := Scalar.sum fun j : Fin n => C.entry i j

/-- The sum of all entries. -/
def entrySum (C : Mat α m n) : α := Scalar.sum (rowSum C)

/-- What stands in a row's sum for the column with an index; a matrix with more columns than
rows has none for the last ones. -/
def columnCount (counts : Vec α m) (j : Nat) : α := if h : j < m then counts[j] else 0

/-- The **weight** of a pair, at the logarithm of the shift. -/
def weight (count total left right logShift : α) : α :=
  Scalar.max (Scalar.log (count * total / (left * right)) - logShift) 0

/-- The columns beyond the last row hold no stored entry. -/
def fits (C : Mat α m n) : Bool :=
  (List.finRange m).all fun i => (List.finRange n).all fun j =>
    decide (j.val < m) || !isStored (C.entry i j)

/-- The weights of all pairs of a matrix of counts. -/
def weights (C : Mat α m n) (logShift : α) : Mat α m n :=
  let total := entrySum C
  let counts : Vec α m := Vector.ofFn (rowSum C)
  Mat.ofFn fun i j =>
    if isStored (C.entry i j) then
      weight (C.entry i j) total (counts.entry i) (columnCount counts j.val) logShift
    else 0

end

variable [Numeral α]

/-- The **weights** of a matrix of counts, for a shift that has to be positive. A matrix
whose counts add up to zero has no weights. -/
def sppmi (C : Mat α m n) (shift : Setting α) : Except Fault (Mat α m n) := do
  refuseIf (← shift.atMost 0) (.rowShift shift.shown)
  if Scalar.eq (entrySum C) 0 then return Mat.zero
  else if fits C then return weights C (Scalar.log (← shift.measured))
  else throw .outOfRange

/-- The row of weighted neighbours that a row of a matrix holds. -/
def neighborRow (items : List Key) (v : Vec α n) : Except Fault (List (Key × α)) :=
  ((List.finRange n).filter fun j => isStored (v.entry j)).mapM fun j => match items[j.val]? with
    | some item => .ok (item, v.entry j)
    | none => .error .outOfRange

/-- The **rows of weighted neighbours** of the items of a matrix; an item without neighbours
has no row. -/
def rowsOfMatrix (M : Mat α m n) (items : List Key) :
    Except Fault (Table Key (List (Key × α))) :=
  items.zipIdx.foldlM (fun t e =>
    if h : e.2 < m then
      match neighborRow items M[e.2] with
      | .ok [] => .ok t
      | .ok row => .ok (t.insert e.1 row)
      | .error f => .error f
    else .error .outOfRange) Table.empty

/-- The rows of weighted neighbours that follow from the **interactions of the users**. -/
def sppmiRows (users : List (Vec α m)) (items : List Key) (shift : Setting α) :
    Except Fault (Table Key (List (Key × α))) := do
  rowsOfMatrix (← sppmi (cooccurrence users) shift) items

end CoEmbed
