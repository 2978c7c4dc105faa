import CoEmbed.Update

/-!
# Samples

The losses are sums over samples: a user with the items that the user is paired with, or an
item with its users and its row of neighbours.

* `Feature` — a key and the value that is observed for it.
* `Sample` — a user's context, an item's context, or a record that is neither.
* `userSamples`, `itemSamples` — the samples of the tables that a model is trained on.
-/

namespace CoEmbed

/-- A key and the **value observed** for it. -/
abbrev Feature (α : Type) := Key × α

/-- A **record** that a loss may be asked to account for. The row of an item that has no
neighbours is absent. -/
inductive Sample (α : Type) where
  | user (key : Key) (features : List (Feature α))
  | item (key : Key) (features : List (Feature α)) (row : Option (Row α))
  | foreign (typeName : String)

variable {α : Type}

/-- The features of a list of keys that are all observed with one value. -/
def asFeatures (ks : List Key) (value : α) : List (Feature α) := ks.map fun k => (k, value)

/-- The same, with the value read for each key that is there. -/
def featuresOf [Numeral α] (ks : List Key) (value : Setting α) :
    Except Fault (List (Feature α)) :=
  ks.mapM fun k => do return (k, ← value.scalar)

/-- One context for each **user**, every item being observed with the value one. -/
def userSamples [One α] (userItems : Table Key (List Key)) : List (Sample α) :=
  userItems.entries.map fun e => .user e.1 (asFeatures e.2 1)

/-- One context for each **item**, with its row if it has one. -/
def itemSamples [One α] (itemUsers : Table Key (List Key)) (rows : Table Key (Row α)) :
    List (Sample α) :=
  itemUsers.entries.map fun e => .item e.1 (asFeatures e.2 1) (rows.get? e.1)

end CoEmbed
