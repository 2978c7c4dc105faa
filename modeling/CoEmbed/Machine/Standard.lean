import CoEmbed.Machine

/-!
# The Standard Machine

Words are counters with their bits spread, places are chosen by a partial shuffle, and a number
that is gathered around zero is a sum of twelve numbers of the unit interval.

* `Stream.word` — the word at a place of a stream.
* `Source.bells` — numbers that are gathered around zero.
* `Source.sample` — distinct members of a list, by a partial shuffle.
* `Source.length_sample`, `Source.sample_perm` — what a sample consists of.
* `Choice.shuffled`, `Choice.legal_shuffled` — the places that a partial shuffle puts in front.
* `Machine.standard` — the machine, with as much memory as anybody asks for.

## Draw convention

The word at a place does not depend on the words before it. A sample reads one place for each of
its members, and a number gathered around zero reads twelve.
-/

namespace CoEmbed

/-! ### Words -/

namespace Stream

/-- The distance between the counters of two words that follow each other. -/
def stride : UInt64 := 0x9E3779B97F4A7C15

/-- Spreads the bits of a counter over the whole word. -/
def mix (z : UInt64) : UInt64 :=
  let z := (z ^^^ (z >>> 30)) * 0xBF58476D1CE4E5B9
  let z := (z ^^^ (z >>> 27)) * 0x94D049BB133111EB
  z ^^^ (z >>> 31)

/-- The word at a place of the stream of a seed. -/
def word (seed : UInt64) (place : Nat) : UInt64 :=
  mix (seed + UInt64.ofNat (place + 1) * stride)

end Stream

namespace Source

/-- The word of the stream `i` places on. -/
def wordAt (s : Source) (i : Nat) : UInt64 := Stream.word s.seed (s.position + i)

/-- The sum of twelve numbers of the unit interval, the first of them `i` places on, less the six
that they add up to on average. -/
def bell {α : Type} [Scalar α] (s : Source) (i : Nat) : α :=
  (List.range 12).foldl (fun t j => t + unitOf (s.wordAt (i + j))) 0 - Scalar.ofNat 6

/-- The next `n` numbers that are **gathered around zero**. -/
def bells {α : Type} [Scalar α] (n : Nat) (s : Source) : Vec α n × Source :=
  (Vector.ofFn fun i => s.bell (12 * i), s.advance (12 * n))

/-! ### Samples -/

/-- The member at a place of the list `x :: xs`, and the others, with the first one moved
into its place. -/
def pick {κ : Type} (x : κ) (xs : List κ) : Nat → κ × List κ
  | 0 => (x, xs)
  | j + 1 => (xs.getD j x, xs.set j x)

/-- Draws `size` members of a list, without laying any back. Each step takes the member
that the next word points at. -/
def sample {κ : Type} : Nat → List κ → Source → List κ × Source
  | 0, _, s => ([], s)
  | _ + 1, [], s => ([], s)
  | size + 1, x :: xs, s =>
    let picked := pick x xs ((s.wordAt 0).toNat % (xs.length + 1))
    let others := sample size picked.2 (s.advance 1)
    (picked.1 :: others.1, others.2)

/-- Drawing nothing leaves the source alone. -/
@[simp] theorem sample_zero {κ : Type} (xs : List κ) (s : Source) : sample 0 xs s = ([], s) := by
  cases xs <;> rfl

/-- Exchanging a member of a list for another one changes the list only there. -/
theorem perm_exchange {κ : Type} (x : κ) (xs : List κ) (j : Nat) (h : j < xs.length) :
    List.Perm (xs.getD j x :: xs.set j x) (x :: xs) := by
  induction xs generalizing j with
  | nil => simp at h
  | cons y ys ih =>
    cases j with
    | zero => simpa using List.Perm.swap x y ys
    | succ j =>
      have hj : j < ys.length := by simpa using h
      simp only [List.getD_cons_succ, List.set_cons_succ]
      exact (List.Perm.swap y _ _).trans (((ih j hj).cons y).trans (List.Perm.swap x y ys))

/-- Picking a member takes nothing away and adds nothing. -/
theorem perm_pick {κ : Type} (x : κ) (xs : List κ) (r : Nat) (h : r ≤ xs.length) :
    List.Perm ((pick x xs r).1 :: (pick x xs r).2) (x :: xs) := by
  cases r with
  | zero => exact List.Perm.refl _
  | succ j => exact perm_exchange x xs j h

/-- A sample consists of **different places of the list**: the list is the sample and some
rest, in some order. -/
theorem sample_perm {κ : Type} (size : Nat) (xs : List κ) (s : Source) :
    ∃ rest, List.Perm ((sample size xs s).1 ++ rest) xs := by
  induction size generalizing xs s with
  | zero => exact ⟨xs, by simp⟩
  | succ size ih =>
    cases xs with
    | nil => exact ⟨[], by simp [sample]⟩
    | cons x xs =>
      rw [sample]
      generalize hr : (s.wordAt 0).toNat % (xs.length + 1) = r
      have hle : r ≤ xs.length := by
        have := Nat.mod_lt (s.wordAt 0).toNat (Nat.succ_pos xs.length)
        rw [Nat.succ_eq_add_one, hr] at this
        omega
      obtain ⟨rest, hrest⟩ := ih (pick x xs r).2 (s.advance 1)
      exact ⟨rest, (hrest.cons _).trans (perm_pick x xs r hle)⟩

/-- A sample is as long as it was asked to be, or as long as the list. -/
theorem length_sample {κ : Type} (size : Nat) (xs : List κ) (s : Source) :
    (sample size xs s).1.length = min size xs.length := by
  induction size generalizing xs s with
  | zero => simp
  | succ size ih =>
    cases xs with
    | nil => simp [sample]
    | cons x xs =>
      rw [sample]
      generalize hr : (s.wordAt 0).toNat % (xs.length + 1) = r
      have hp : (pick x xs r).2.length = xs.length := by cases r <;> simp [pick]
      simp [ih, hp]

end Source

/-- The choice of the places that a **partial shuffle** puts in front. -/
def Choice.shuffled : Choice Source := fun available size s =>
  Source.sample size (List.range available) s

/-- A partial shuffle is a **legal** choice. -/
theorem Choice.legal_shuffled : Choice.shuffled.Legal where
  length h s := by rw [shuffled, Source.length_sample, List.length_range, Nat.min_eq_left h]
  nodup _ s := by
    obtain ⟨rest, hrest⟩ := Source.sample_perm _ (List.range _) s
    exact (List.nodup_append.1 (hrest.nodup_iff.2 List.nodup_range)).1
  lt _ s p hp := by
    obtain ⟨rest, hrest⟩ := Source.sample_perm _ (List.range _) s
    exact List.mem_range.1 (hrest.subset (List.mem_append_left rest hp))

/-! ### The machine -/

/-- The **standard machine**. -/
instance Machine.standard : Machine where
  word := Stream.word
  choose := Choice.shuffled
  legal := Choice.legal_shuffled
  bells := Source.bells
  holds _ := true
  year := 2026

end CoEmbed
