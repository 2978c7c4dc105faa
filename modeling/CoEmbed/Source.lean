import CoEmbed.Fault

/-!
# Random Sources

Every draw of this library comes from a stream of words that a seed fixes, so a source is a
seed and a place. What the words are, and how places of a list are chosen, is not said here:
it is the machine that a program runs on that says so.

* `Source` — the seed of a stream, and the place up to which it has been read.
* `Source.ofSeed`, `Source.advance` — the beginning of a stream, and a place further on.
* `Choice`, `Choice.Legal` — a way to choose places of a list, and one that keeps to the
  places there are.
* `drawBy` — the members of a list at chosen places.

## Draw convention

Nothing is read where nothing is drawn.
-/

namespace CoEmbed

/-- A **random source**: the seed of a stream of words, and the place of the next word. -/
structure Source where
  seed : UInt64
  position : Nat
  deriving DecidableEq, Repr

namespace Source

/-- The source of a seed, which must not be negative. -/
def ofSeed (seed : Int) : Except Fault Source :=
  if seed < 0 then .error .badValue else .ok ⟨UInt64.ofNat seed.toNat, 0⟩

/-- The source after `n` more places have been read. -/
def advance (s : Source) (n : Nat) : Source := { s with position := s.position + n }

end Source

variable {σ κ : Type}

/-- A way to **choose places**: from how many there are, how many are asked for and a state,
it makes the chosen places and the next state. -/
abbrev Choice (σ : Type) := Nat → Nat → σ → List Nat × σ

/-- A choice that finds **as many different places** as it is asked for, all of them there, if
there are so many. -/
structure Choice.Legal (choose : Choice σ) : Prop where
  length : ∀ {available size}, size ≤ available → ∀ s, (choose available size s).1.length = size
  nodup : ∀ {available size}, size ≤ available → ∀ s, (choose available size s).1.Nodup
  lt : ∀ {available size}, size ≤ available → ∀ s, ∀ p ∈ (choose available size s).1, p < available

/-- The members of a pool at **chosen places**; nothing is chosen where nothing is asked
for. -/
def drawBy (choose : Choice σ) (size : Nat) (pool : List κ) (s : σ) : List κ × σ :=
  if size = 0 then ([], s)
  else
    let chosen := choose pool.length size s
    (chosen.1.filterMap fun p => pool[p]?, chosen.2)

end CoEmbed
