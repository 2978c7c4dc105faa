import CoEmbed.Update
import CoEmbed.Proofs.Outcome

/-!
# Faults that cannot Occur

A computation that reads values can fail in the ways in which a value fails to be read, and in no
other. What it then cannot be is the defect of a system, or a hyperparameter that is refused.

* `Avoids` — a computation has no fault of a family.
* `Avoids.bind`, `avoids_foldlM` — nor has one that is made of such computations.
* `Fault.Kind.ofReading` — the families to which the faults of reading a value belong.
* `Setting.avoids_scalar` and its kin — a setting is read with no other faults.
* `Operand.Plain` — a type of values that are read with no other faults.
* `avoids_newBias`, `avoids_newGlobalBias` — the updates that solve no system.
-/

namespace CoEmbed

/-! ### Families of faults -/

/-- Whatever fault a computation has, it is **not of a family**. -/
def Avoids {β : Type} (k : Fault.Kind) (x : Except Fault β) : Prop :=
  ∀ f, x = .error f → f.kind ≠ k

section

variable {β γ : Type} {k : Fault.Kind}

theorem avoids_ok (b : β) : Avoids k (.ok b) := by
  intro f h
  cases h

theorem avoids_error {f : Fault} (hf : f.kind ≠ k) : Avoids k (.error f : Except Fault β) := by
  intro f' h
  obtain rfl := Except.error.inj h
  exact hf

/-- Two parts that avoid a family do so **one after the other**. -/
theorem Avoids.bind {x : Except Fault β} {f : β → Except Fault γ} (hx : Avoids k x)
    (hf : ∀ b, x = .ok b → Avoids k (f b)) : Avoids k (x >>= f) := by
  cases x with
  | error e =>
      intro e' h
      obtain rfl := Except.error.inj h
      exact hx e rfl
  | ok b => exact hf b rfl

/-- After a part that **has a result** it is the rest that matters. -/
theorem Avoids.of_ok {x : Except Fault β} {b : β} (hx : x = .ok b) {f : β → Except Fault γ}
    (hf : Avoids k (f b)) : Avoids k (x >>= f) := by
  subst hx
  exact hf

theorem Avoids.map {x : Except Fault β} (hx : Avoids k x) (f : β → γ) : Avoids k (x.map f) := by
  cases x with
  | error e =>
      intro e' h
      obtain rfl := Except.error.inj h
      exact hx e rfl
  | ok b => exact avoids_ok (f b)

/-- A loop avoids what **each of its steps** avoids. -/
theorem avoids_foldlM {f : γ → β → Except Fault γ} (hf : ∀ c b, Avoids k (f c b)) (c : γ)
    (bs : List β) : Avoids k (bs.foldlM f c) := by
  induction bs generalizing c with
  | nil => exact avoids_ok c
  | cons b bs ih =>
      rw [List.foldlM_cons]
      exact (hf c b).bind fun c' _ => ih c'

end

/-- The families to which the faults of **reading a value** belong. -/
def Fault.Kind.ofReading : Fault.Kind → Bool
  | .value | .type | .operand | .overflow => true
  | _ => false

/-- A fault of reading is of **no other family**. -/
theorem avoids_of_reading {β : Type} {k : Fault.Kind} (hk : k.ofReading = false) {f : Fault}
    (hf : f.kind.ofReading = true) : Avoids k (.error f : Except Fault β) := by
  refine avoids_error fun heq => ?_
  rw [heq, hk] at hf
  cases hf

/-! ### Settings -/

namespace Setting

variable {α : Type} [Numeral α] {k : Fault.Kind}

theorem avoids_number (hk : k.ofReading = false) (v : Setting α) : Avoids k v.number := by
  cases v with
  | flag b => exact avoids_ok _
  | integer n => exact avoids_ok _
  | real x => exact avoids_ok x
  | absent => exact avoids_of_reading hk rfl
  | text t => exact avoids_of_reading hk rfl

theorem avoids_scalar (hk : k.ofReading = false) (v : Setting α) : Avoids k v.scalar := by
  cases v with
  | flag b => exact avoids_ok _
  | real x => exact avoids_ok x
  | absent => exact avoids_of_reading hk rfl
  | integer n =>
      simp only [scalar]
      split
      · exact avoids_ok _
      · exact avoids_of_reading hk rfl
  | text t =>
      simp only [scalar]
      split
      · exact avoids_ok _
      · exact avoids_of_reading hk rfl

theorem avoids_operand (hk : k.ofReading = false) (v : Setting α) : Avoids k v.operand := by
  cases v with
  | text t => exact avoids_of_reading hk rfl
  | absent => exact avoids_scalar hk .absent
  | flag b => exact avoids_scalar hk (.flag b)
  | integer n => exact avoids_scalar hk (.integer n)
  | real x => exact avoids_scalar hk (.real x)

theorem avoids_measured (hk : k.ofReading = false) (v : Setting α) : Avoids k v.measured := by
  cases v with
  | integer n =>
      rw [measured]
      split
      · exact avoids_ok _
      · exact avoids_of_reading hk rfl
  | text t => exact avoids_operand hk (.text t)
  | absent => exact avoids_operand hk .absent
  | flag b => exact avoids_operand hk (.flag b)
  | real x => exact avoids_operand hk (.real x)

omit [Numeral α] in
theorem avoids_count (hk : k.ofReading = false) (v : Setting α) : Avoids k v.count := by
  cases v with
  | flag b => exact avoids_ok _
  | integer n => exact avoids_ok n
  | absent => exact avoids_of_reading hk rfl
  | real x => exact avoids_of_reading hk rfl
  | text t => exact avoids_of_reading hk rfl

theorem avoids_whole (hk : k.ofReading = false) (v : Setting α) : Avoids k v.whole := by
  cases v with
  | flag b => exact avoids_ok _
  | integer n => exact avoids_ok n
  | absent => exact avoids_of_reading hk rfl
  | real x =>
      simp only [whole]
      split
      · exact avoids_ok _
      · exact avoids_of_reading hk rfl
      · exact avoids_of_reading hk rfl
  | text t =>
      simp only [whole]
      split
      · exact avoids_ok _
      · exact avoids_of_reading hk rfl

end Setting

/-! ### Values that are read where they are needed -/

/-- A type of values whose **reading** fails in no other way than that a value cannot be read. -/
class Operand.Plain (ρ α : Type) [Operand ρ α] : Prop where
  operand {k : Fault.Kind} (hk : k.ofReading = false) (x : ρ) :
    Avoids k (Operand.operand x : Except Fault α)

/-- Scalars are read without a fault. -/
instance {α : Type} [Scalar α] : Operand.Plain α α where
  operand _ x := avoids_ok x

/-- Values as they were given are read as settings. -/
instance {α : Type} [Numeral α] : Operand.Plain (Setting α) α where
  operand hk x := Setting.avoids_operand hk x

/-! ### Updates that solve no system -/

section

variable {ρ α : Type} [Scalar α] [Operand ρ α] [Operand.Plain ρ α] {k : Fault.Kind} {n : Nat}

theorem avoids_tallyRow {m : Nat} (hk : k.ofReading = false) (v : Vec α m) (row : Row ρ)
    (W : Factors α n) (rest : α → Key → α → α) (t : Tally α) :
    Avoids k (tallyRow v row W rest t) := by
  refine avoids_foldlM (fun t e => ?_) t row
  split
  · exact avoids_ok t
  · split
    · exact (Operand.Plain.operand hk e.2).bind fun _ _ => avoids_ok _
    · exact avoids_of_reading hk rfl

/-- The best **bias** of an item is a mean of what is read. -/
theorem avoids_newBias {m : Nat} (hk : k.ofReading = false) (i : Key) (row : Row ρ)
    (own : Factors α m) (others : Factors α n) (otherBias : Option (Table Key (Bias α)))
    (globalBias : α) : Avoids k (newBias i row own others otherBias globalBias) := by
  rw [newBias]
  split
  · exact avoids_ok none
  · exact (avoids_tallyRow hk _ row others _ _).map _

/-- The best **global bias** is a mean of what is read. -/
theorem avoids_newGlobalBias {m : Nat} (hk : k.ofReading = false) (items : List Key)
    (rows : Table Key (Row ρ)) (beta : Factors α m) (gamma : Factors α n)
    (betaBias gammaBias : Option (Table Key (Bias α))) :
    Avoids k (newGlobalBias items rows beta gamma betaBias gammaBias) := by
  refine (avoids_foldlM (fun t i => ?_) _ items).map _
  split
  · exact avoids_tallyRow hk _ _ gamma _ t
  · exact avoids_ok t

end

end CoEmbed
