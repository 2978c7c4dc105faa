import CoEmbed.Source
import CoEmbed.Vec

/-!
# Machines

A program does not bring everything with it: random words come from a generator, lists are
kept in a memory, and somebody has to know what year it is. All of this is found where the
program runs.

* `unitOf` — the number of the unit interval that a word stands for.
* `Machine` — what a program finds where it runs.
* `Source.peek` — the words of a source.
* `Source.unit`, `Source.units` — numbers of the unit interval.

## Draw convention

A draw of `n` numbers of the unit interval reads `n` places, each place once and in order.
-/

namespace CoEmbed

/-- The number of the **unit interval** that a word stands for: its upper 53 bits, in units of
`2 ^ -53`. -/
def unitOf {α : Type} [Scalar α] (word : UInt64) : α :=
  Scalar.ofNat (word >>> 11).toNat / Scalar.ofNat (Nat.pow 2 53)

/-- What a program finds **where it runs**. Nothing is known of the words of a stream, or of
the numbers that are gathered around zero; the places that are chosen are different places. -/
class Machine where
  /-- The word at a place of the stream of a seed. -/
  word : UInt64 → Nat → UInt64
  /-- Chooses places of a list. -/
  choose : Choice Source
  /-- Places are chosen among those there are, none of them twice. -/
  legal : choose.Legal
  /-- Draws numbers that are gathered around zero, with a spread of one. -/
  bells : {α : Type} → [Scalar α] → (n : Nat) → Source → Vec α n × Source
  /-- Memory has room for a list with so many entries. -/
  holds : Nat → Bool
  /-- The present year. -/
  year : Nat

namespace Source

variable [Machine]

/-- The word `i` places on. -/
def peek (s : Source) (i : Nat) : UInt64 := Machine.word s.seed (s.position + i)

variable {α : Type} [Scalar α]

/-- The number of the **unit interval** `i` places on. -/
def unit (s : Source) (i : Nat) : α := unitOf (s.peek i)

/-- The next `n` numbers of the unit interval. -/
def units (s : Source) (n : Nat) : List α := (List.range n).map s.unit

end Source

end CoEmbed
