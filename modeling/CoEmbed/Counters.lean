import CoEmbed.Setting
import CoEmbed.Table

/-!
# Counters

What registrations and sweeps have come across. A model counts only what it has been given
a counter for.

* `Counted` — what can be counted.
* `Counters` — the counters a model has, by name.
* `Counters.add` — counts, if there is a counter.
* `Tallies` — counters that may be raised by any number.
-/

namespace CoEmbed

/-- What a model can **count**. -/
inductive Counted where
  | users
  | items
  | skippedUsers
  | skippedItems
  | thetaTrainable
  | thetaTotal
  | betaTrainable
  | betaTotal
  deriving DecidableEq, Repr

/-- The name of a counter. -/
def Counted.name : Counted → String
  | .users => "users"
  | .items => "items"
  | .skippedUsers => "skipped_users"
  | .skippedItems => "skipped_items"
  | .thetaTrainable => "theta_trainable_features"
  | .thetaTotal => "theta_total_features"
  | .betaTrainable => "beta_trainable_features"
  | .betaTotal => "beta_total_features"

/-- All that can be counted. -/
def Counted.all : List Counted :=
  [.users, .items, .skippedUsers, .skippedItems, .thetaTrainable, .thetaTotal,
   .betaTrainable, .betaTotal]

/-- **Counters** by name. -/
abbrev Counters := Table String Int

namespace Counters

/-- Fresh counters with the given names. -/
def fresh (names : List String) : Counters := Table.ofList (names.map fun n => (n, 0))

/-- A fresh counter for everything. -/
def complete : Counters := fresh (Counted.all.map Counted.name)

/-- Adds to the counter with a name, **if there is one**. -/
def addNamed (c : Counters) (name : String) (n : Int) : Counters :=
  match c.get? name with
  | some v => c.insert name (v + n)
  | none => c

/-- Counts, if there is a counter for it. -/
def add (c : Counters) (what : Counted) (n : Nat) : Counters := c.addNamed what.name n

end Counters

/-- **Counters** by name that may be raised by any number, whole or not. -/
abbrev Tallies (α : Type) := Table String (Setting α)

namespace Tallies

variable {α : Type}

/-- Fresh counters with the given names. -/
def fresh (names : List String) : Tallies α := Table.ofList (names.map fun n => (n, .integer 0))

variable [Numeral α]

/-- Adds to the counter with a name, **if there is one**; what counts as false adds
nothing. -/
def raise (c : Tallies α) (name : String) (n : Setting α) : Except Fault (Tallies α) :=
  match c.get? name with
  | some v => if n.holds then do return c.insert name (← v.plus n) else .ok c
  | none => .ok c

/-- How a counter is written. -/
def text (name : String) (value : Setting α) : String :=
  "Counter(" ++ Text.quoted name ++ ", " ++ value.shown ++ ")"

end Tallies

end CoEmbed
