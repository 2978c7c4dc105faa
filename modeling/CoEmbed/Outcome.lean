import CoEmbed.Fault

/-!
# Outcomes

An operation on a model that fails part of the way leaves behind what it has done so far. An
outcome is the state it leaves, and the fault if there was one.

* `Outcome` — a state and perhaps a fault.
* `Outcome.bind` — goes on unless there was a fault.
* `Outcome.each` — one step for every member of a list, up to the first fault.
* `Outcome.result` — the state of an operation that nothing is left of if it fails.
* `Outcome.each_append` — a list taken in two parts.
-/

namespace CoEmbed

/-- The **state** an operation leaves, and the fault that ended it, if one did. -/
structure Outcome (σ : Type) where
  state : σ
  fault : Option Fault

namespace Outcome

variable {σ ρ : Type}

/-- The operation went through. -/
def done (s : σ) : Outcome σ := ⟨s, none⟩

/-- The operation failed. -/
def failed (s : σ) (f : Fault) : Outcome σ := ⟨s, some f⟩

/-- The state, unless there was a **fault**: what an operation comes to whose state nobody sees
once it has failed. -/
def result (o : Outcome σ) : Except Fault σ :=
  match o.fault with
  | none => .ok o.state
  | some f => .error f

/-- **Goes on** with the state unless there was a fault. -/
def bind (o : Outcome σ) (next : σ → Outcome σ) : Outcome σ :=
  match o.fault with
  | none => next o.state
  | some _ => o

/-- One step for **each** member of a list, up to the first fault. -/
def each (step : σ → ρ → Outcome σ) : σ → List ρ → Outcome σ
  | s, [] => done s
  | s, r :: rs => (step s r).bind fun s => each step s rs

/-- Two parts of a list are taken one after the other. -/
theorem each_append (step : σ → ρ → Outcome σ) (s : σ) (rs ts : List ρ) :
    each step s (rs ++ ts) = (each step s rs).bind fun s => each step s ts := by
  induction rs generalizing s with
  | nil => rfl
  | cons r rs ih =>
    simp only [List.cons_append, each]
    cases h : (step s r).fault with
    | none => simp [bind, h, ih]
    | some f => simp [bind, h]

/-- What holds of a state and is kept by every step holds in the end, also after a
fault. -/
theorem each_invariant (step : σ → ρ → Outcome σ) (P : σ → Prop)
    (hstep : ∀ s r, P s → P (step s r).state) (s : σ) (rs : List ρ) (h : P s) :
    P (each step s rs).state := by
  induction rs generalizing s with
  | nil => exact h
  | cons r rs ih =>
    have hr := hstep s r h
    simp only [each, bind]
    split
    · exact ih _ hr
    · exact hr

end Outcome

end CoEmbed
