import CoEmbed.Outcome
import CoEmbed.Table
import CoEmbed.Tensor
import CoEmbed.VectorInit

/-!
# Tables of Vectors

A table of vectors is filled from outside before anybody knows how long its vectors are:
either the number of factors is set beforehand, or the first vector sets it.

* `Weights` — the table, with the number of factors once it is known.
* `Weights.set` — stores a vector that fits.
* `Weights.ofTable` — the table that takes the entries of another one.
* `Weights.create` — draws the vector of a new key.
* `Weights.register` — creates a vector for every new key, and counts them.
* `Weights.matrix` — the rows of some of the keys.
* `Weights.typed?` — the same table with the number of factors in its type.
* `Factors` — tables of vectors of one length, which is what everything else works on.
* `Biases` — a table of scalars and the scalar of a new key.

## Length convention

The number of factors never changes once it is known, and every stored vector has that many
entries. It may have been set to a value that no vector fits, such as a negative number.

## Drawing convention

Vectors are drawn by a table that knows how long they are. Without a length only a single number
could be drawn, and it would be stored unchecked; tables of single numbers are left out here, and
such a registration is refused where it first comes to a new key.
-/

namespace CoEmbed

/-- **Parameter vectors** of one length, by the key they belong to. -/
abbrev Factors (α : Type) (n : Nat) := Table Key (Vec α n)

/-- A table of vectors whose length is known only when the program runs. -/
structure Weights (α : Type) where
  factor : Option (Setting α)
  rows : Table Key (List α)

namespace Weights

variable {α : Type}

/-- The table without vectors. -/
def empty (factor : Option (Setting α)) : Weights α := ⟨factor, Table.empty⟩

section

variable [Numeral α]

/-- A vector with `n` entries has the length that a setting asks for. -/
def fits (n : Nat) : Setting α → Bool
  | .integer m => decide ((n : Int) = m)
  | .flag b => decide (n = b.toNat)
  | .real x => Scalar.eq (Scalar.ofNat n) x
  | .absent | .text _ => false

/-- Stores the entries of a vector, if they are as many as the table takes; the first vector
says how many that is, unless it has been said before. -/
def store (w : Weights α) (k : Key) (v : List α) : Outcome (Weights α) :=
  match w.factor with
  | none => .done ⟨some (.integer v.length), w.rows.insert k v⟩
  | some n =>
    if fits v.length n then .done ⟨some n, w.rows.insert k v⟩
    else .failed w (.vectorLength k v.length n.shown)

/-- **Stores a nested list** that is a vector of the right length. -/
def set (w : Weights α) (k : Key) (x : Nested α) : Outcome (Weights α) :=
  match Tensor.ofNested x with
  | .error f => .failed w f
  | .ok t => match t.shape with
    | [_] => w.store k t.entries
    | shape => .failed w (.vectorRank k shape)

/-- The table that takes the entries of another one, in their order. -/
def ofTable (factor : Option (Setting α)) (t : Table Key (Nested α)) :
    Except Fault (Weights α) :=
  (Outcome.each (fun w e => w.set e.1 e.2) (empty factor) t.entries).result

end

/-- Removes a key that is there. -/
def delete (w : Weights α) (k : Key) : Except Fault (Weights α) :=
  if k ∈ w.rows then .ok { w with rows := w.rows.erase k } else .error .missingKey

/-- The table with the number of factors in its **type**; a table without vectors fits any
number. -/
def typed? (w : Weights α) (n : Nat) : Option (Factors α n) :=
  (w.rows.entries.mapM fun e => (Vec.ofList? n e.2).map fun v => (e.1, v)).map Table.ofList

variable [Machine] [Numeral α]

/-- The number of factors that has been set, zero if none has. -/
def declared (w : Weights α) : Except Fault Int :=
  match w.factor with
  | none => .ok 0
  | some n => if n.holds then n.count else .ok 0

/-- The number of entries of the vectors, as far as it is known. -/
def width (w : Weights α) : Nat :=
  match w.rows.values with
  | v :: _ => v.length
  | [] => (w.declared.toOption.getD 0).toNat

/-- The vectors of some keys, and how many entries each of them has. -/
def matrix (w : Weights α) (ks : List Key) : Except Fault (Nat × List (List α)) := do
  let rows ← ks.mapM fun k => match w.rows.get? k with
    | some v => .ok v
    | none => .error .missingKey
  if rows.isEmpty then
    let n ← w.declared
    if n < 0 then throw .badValue else return (n.toNat, rows)
  else return (w.width, rows)

/-- The number of coordinates that a setting asks to be drawn. A number that is not given as
a whole one is looked at for its sign first. -/
def coordinates : Setting α → Except Fault Nat
  | .real x => .error (if Scalar.lt x 0 then .badValue else .badType)
  | n => do
    let m ← n.count
    if m < 0 then throw .badValue else return m.toNat

/-- **Draws a vector** as long as a table takes them. For a table that does not know the length
nothing is drawn. -/
def create (factor : Option (Setting α)) (init : VectorInit α) (s : Source) :
    Except Fault (List α × Source) :=
  match factor with
  | none => .error .badType
  | some n =>
    if !init.drawable then .error .overflow
    else do
      let m ← coordinates n
      return ((init.draw m s).1.toList, (init.draw m s).2)

/-- How far a **registration** has come: the table, the number of keys that are new in it, and
the source. -/
structure Registration (α : Type) where
  weights : Weights α
  added : Nat
  source : Source

/-- Creates the vector of a key that has none. -/
def enrol (init : VectorInit α) (r : Registration α) (k : Key) : Outcome (Registration α) :=
  if k ∈ r.weights.rows then .done r
  else match create r.weights.factor init r.source with
    | .error f => .failed r f
    | .ok (v, s) =>
      .done ⟨{ r.weights with rows := r.weights.rows.insert k v }, r.added + 1, s⟩

/-- **Registers** the keys of a list: creates a vector for every one that has none, in
order. -/
def register (w : Weights α) (ks : List Key) (init : VectorInit α) (s : Source) :
    Outcome (Registration α) :=
  Outcome.each (enrol init) ⟨w, 0, s⟩ ks

end Weights

/-- Stores an array in a table of vectors of a known length, if it is such a vector. -/
def Factors.set {α : Type} {n : Nat} (W : Factors α n) (k : Key) (t : Tensor α) :
    Except Fault (Factors α n) :=
  match t.shape with
  | [_] => match Vec.ofList? n t.entries with
    | some v => .ok (W.insert k v)
    | none => .error (.vectorLength k t.entries.length (toString n))
  | shape => .error (.vectorRank k shape)

/-- A table of **biases**; a key that is registered starts out with the initial one. -/
structure Biases (α : Type) where
  initial : α
  values : Table Key α

namespace Biases

variable {α : Type}

/-- Gives every key that has no bias the initial one. -/
def register (b : Biases α) (ks : List Key) : Biases α :=
  { b with values := (b.values.register (fun u : Unit => (b.initial, u)) ks ()).1 }

end Biases

end CoEmbed
