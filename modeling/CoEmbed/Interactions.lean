import CoEmbed.Distinct
import CoEmbed.Machine
import CoEmbed.Setting
import CoEmbed.Table
import CoEmbed.Threshold

/-!
# Interactions

A log of interactions is cut off at a time, freed of items that hardly anybody used, and
split into pairs to train on and pairs to hold out.

* `Frame` — a log as it is given, column by column.
* `Frame.ofColumns`, `Frame.ofValues` — the log with the given columns.
* `Selection` — what is taken from a log, and how it is split.
* `Frame.pairs` — the pairs of user and item before the cut-off.
* `popular` — those whose item has enough users.
* `split` — the distinct pairs, each on one of two sides.
* `Tables` — the items of each user, the users of each item, and the pairs held out.
* `Tables.matrix` — the training pairs as a matrix, each with the number of times it is listed.

## Split convention

Each distinct pair takes one draw, in order of first appearance, and is held out if the draw
falls below the share of pairs to hold out. A draw is taken whatever the share is, so a
larger share holds out the same pairs and more.

## Missing keys

A missing item is never kept. A missing user does not count among the users of an item and
has no row of its own, but its pairs are kept.

## Name convention

A column has a text for its name, and any value may be asked for. The column of items cannot be
an absent one: that is a fault of type, found before any column is looked up.
-/

namespace CoEmbed

variable {α : Type}

/-- A **log of interactions**, column by column. -/
structure Frame (α : Type) where
  columns : List (String × List (Setting α))

/-- **What is taken from a log**: the least number of users of an item, the time at which the
log is cut off, the share of pairs to hold out, the seed of the split, and the names of the
columns. -/
structure Selection (α : Type) where
  minUsers : Setting α
  cutoff : Setting α
  share : Setting α
  seed : Setting α
  userColumn : Setting α
  itemColumn : Setting α
  timeColumn : Setting α

/-- The tables that a model is **trained on**, and the pairs that are held out. -/
structure Tables where
  userItems : Table Key (List Key)
  itemUsers : Table Key (List Key)
  heldOut : List (Key × Key)

/-- The values listed under each key, keys in order of first appearance. -/
def grouped {κ ν : Type} [DecidableEq κ] (es : List (κ × ν)) : Table κ (List ν) :=
  es.foldl (fun t e => t.insert e.1 ((t.get? e.1).getD [] ++ [e.2])) Table.empty

namespace Frame

/-- The log with the given columns. A column that is **too short** has missing entries at its
end. -/
def ofColumns (columns : List (String × List (Setting α))) : Frame α :=
  let size := (columns.map fun c => c.2.length).foldl max 0
  ⟨columns.map fun c => (c.1, c.2 ++ List.replicate (size - c.2.length) .absent)⟩

/-- The log with columns of values as they were given, the numbers of each column being
**of one kind**. -/
def ofValues [Numeral α] (columns : List (String × List (Setting α))) : Frame α :=
  ⟨(ofColumns columns).columns.map fun c => (c.1, alike c.2)⟩

/-- The column with a name. -/
def column (f : Frame α) (name : Setting α) : Except Fault (List (Setting α)) :=
  match name with
  | .text name => match f.columns.lookup name with
    | some c => .ok c
    | none => .error .missingKey
  | .absent | .flag _ | .integer _ | .real _ => .error .missingKey

/-- The number of interactions. -/
def size (f : Frame α) : Nat := match f.columns with
  | c :: _ => c.2.length
  | [] => 0

end Frame

namespace Selection

variable [Numeral α]

/-- What is taken from a log if nothing else is said: everything, and nothing is held
out. -/
def standard : Selection α where
  minUsers := .integer 1
  cutoff := .absent
  share := .real 0
  seed := .integer 31
  userColumn := .text "reviewerID"
  itemColumn := .text "asin"
  timeColumn := .text "unixReviewTime"

/-- The selection with one part of it, named, replaced. -/
def set? (s : Selection α) (name : String) (v : Setting α) : Option (Selection α) :=
  match name with
  | "min_users" => some { s with minUsers := v }
  | "cutoff_time" => some { s with cutoff := v }
  | "validation_ratio" => some { s with share := v }
  | "seed" => some { s with seed := v }
  | "user_col" => some { s with userColumn := v }
  | "item_col" => some { s with itemColumn := v }
  | "time_col" => some { s with timeColumn := v }
  | _ => none

/-- A share of pairs to hold out has to lie between zero and one. -/
def check (s : Selection α) : Except Fault Unit := do
  refuseIf (!(← s.share.isShare)) (.splitShare s.share.shown)

/-- The selection that a list of named values describes. -/
def ofNamed (given : List (String × Setting α)) : Except Fault (Selection α) := do
  let s ← given.foldlM (fun s g => match s.set? g.1 g.2 with
    | some s => .ok s
    | none => .error .badType) standard
  s.check
  return s

/-- Enough users for an item to be kept; no number is enough for an absent one. -/
def enough (s : Selection α) : Except Fault (Nat → Bool) :=
  match s.minUsers with
  | .absent => .ok fun _ => false
  | v => v.number.map fun least => fun n => Scalar.le least (Scalar.ofNat n)

/-- The times before the **cut-off**. -/
def early (s : Selection α) (f : Frame α) : Except Fault (List Bool) :=
  match s.cutoff with
  | .absent => .ok (List.replicate f.size true)
  | cutoff => do below (← f.column s.timeColumn) cutoff

/-- The items, row by row. -/
def items (s : Selection α) (f : Frame α) : Except Fault (List (Setting α)) :=
  match s.itemColumn with
  | .absent => .error .badType
  | name => f.column name

/-- Users and items are taken from **one column**. -/
def isOneColumn (s : Selection α) : Bool :=
  match s.userColumn, s.itemColumn with
  | .text u, .text i => decide (u = i)
  | _, _ => false

end Selection

/-- The **pairs of user and item** before the cut-off, row by row. -/
def Frame.pairs [Numeral α] (f : Frame α) (s : Selection α) : Except Fault (List (Key × Key)) := do
  let early ← s.early f
  let items ← s.items f
  let users ← f.column s.userColumn
  let rows := (users.map Setting.key).zip (items.map Setting.key)
  return ((rows.zip early).filter fun r => r.2).map Prod.fst

/-- The number of different users of an item. -/
def userCount (log : List (Key × Key)) (item : Key) : Nat :=
  (distinct ((log.filter fun p => p.2 = item ∧ p.1 ≠ .missing).map Prod.fst)).length

/-- The pairs whose item has **enough users**. -/
def popular (enough : Nat → Bool) (log : List (Key × Key)) : List (Key × Key) :=
  let kept := (distinct (log.map Prod.snd)).filter fun i =>
    i ≠ .missing && enough (userCount log i)
  log.filter fun p => decide (p.2 ∈ kept)

/-- The pairs of a list that are trained on and those that are held out, by their draws. -/
def divide [Scalar α] (share : α) (pairs : List (Key × Key)) (draws : List α) :
    List (Key × Key) × List (Key × Key) :=
  let dealt := pairs.zip draws
  ((dealt.filter fun d => !Scalar.lt d.2 share).map Prod.fst,
   (dealt.filter fun d => Scalar.lt d.2 share).map Prod.fst)

/-- The distinct pairs of a log, **each on one of two sides**. -/
def split [Machine] [Scalar α] (share : α) (s : Source) (log : List (Key × Key)) :
    List (Key × Key) × List (Key × Key) :=
  let pairs := distinct log
  divide share pairs (s.units pairs.length)

namespace Tables

/-- The tables of the pairs that are trained on and those that are held out. -/
def ofPairs (training heldOut : List (Key × Key)) : Tables where
  userItems := grouped (training.filter fun p => p.1 ≠ .missing)
  itemUsers := grouped (training.map fun p => (p.2, p.1))
  heldOut := heldOut

/-- The **tables that a selection takes from a log**. -/
def ofFrame [Machine] [Numeral α] (f : Frame α) (s : Selection α) : Except Fault Tables := do
  let pairs ← f.pairs s
  let log := popular (← s.enough) pairs
  let source ← Source.ofSeed (← s.seed.count)
  let (training, heldOut) := split (← s.share.number) source log
  if s.isOneColumn then throw .badValue
  return ofPairs training heldOut

/-- Tables that have to have been built. -/
def built : Option Tables → Except Fault Tables
  | some t => .ok t
  | none => .error .tablesNotBuilt

/-- The users with a row. -/
def users (t : Tables) : List Key := t.userItems.keys

/-- The items with a column. -/
def items (t : Tables) : List Key := t.itemUsers.keys

/-- The entry of a pair that is listed so many times: entries in one place of a matrix **add
up**. -/
def addUp [Scalar α] : Nat → α
  | 0 => 0
  | 1 => 1
  | n + 2 => addUp (n + 1) + 1

/-- The **training pairs** as a matrix, users by items. -/
def matrix [Scalar α] (t : Tables) : List (Vec α t.items.length) :=
  t.userItems.values.map fun row =>
    Vector.ofFn fun j : Fin t.items.length => addUp (row.count t.items[j])

/-- The keys of a table, each with its place. -/
def places {ν : Type} (t : Table Key ν) : List (Key × Nat) := t.keys.zipIdx

end Tables

end CoEmbed
