import CoEmbed.Bias

/-!
# Operands

A computation reads a value at the moment it needs it. Where a value is never needed, it
does not matter whether it could have been read.

* `Operand` — a type of values that are read as scalars.
* `residual` — what is left of a value once two biases are taken away.
* `readEntry`, `readEntries` — the entries of a list whose keys are known, with their values
  read.
* `residual_scalar`, `readEntries_ok` — reading scalars never fails.

## Need convention

The value of a key that is not known is never needed. If it cannot be read, its entry keeps
its place and holds zero.
-/

namespace CoEmbed

/-- A type of values that are **read as scalars** where a computation needs them. -/
class Operand (ρ α : Type) where
  /-- The scalar of a value, or the fault that it has none. -/
  operand : ρ → Except Fault α
  /-- A value with a bias taken away. -/
  less : ρ → Bias α → Except Fault ρ

/-- A scalar is its own operand. -/
instance {α : Type} [Scalar α] : Operand α α := ⟨.ok, fun x b => .ok (x - b.scalar)⟩

/-- A value as it was given is read as its number. -/
instance {α : Type} [Numeral α] : Operand (Setting α) α := ⟨Setting.operand, Setting.less⟩

/-- The number one, as it is given. -/
instance {α : Type} : One (Setting α) := ⟨.integer 1⟩

variable {κ ρ α : Type}

/-- A scalar is read as itself. -/
@[simp] theorem operand_scalar [Scalar α] (x : α) :
    (Operand.operand x : Except Fault α) = .ok x := rfl

/-- What is **left of a value** once two biases are taken away, one after the other. -/
def residual [Operand ρ α] (x : ρ) (b c : Bias α) : Except Fault α := do
  Operand.operand (← Operand.less (← Operand.less x b) c)

/-- What is left of a scalar is a difference. -/
@[simp] theorem residual_scalar [Scalar α] (x : α) (b c : Bias α) :
    residual x b c = .ok (x - b.scalar - c.scalar) := rfl

/-- An entry with its value **read**, if the key is known. -/
def readEntry [Zero α] (known : κ → Bool) (read : κ × ρ → Except Fault α) (e : κ × ρ) :
    Except Fault (κ × α) :=
  match read e with
  | .ok x => .ok (e.1, x)
  | .error f => if known e.1 then .error f else .ok (e.1, 0)

/-- The entries of a list with the values of the **known keys** read. -/
def readEntries [Zero α] (known : κ → Bool) (read : κ × ρ → Except Fault α)
    (es : List (κ × ρ)) : Except Fault (List (κ × α)) :=
  es.mapM (readEntry known read)

/-- Where every value can be read it does not matter what is known. -/
@[simp] theorem readEntries_ok [Zero α] (known : κ → Bool) (read : κ × ρ → α)
    (es : List (κ × ρ)) :
    readEntries known (fun e => .ok (read e)) es = .ok (es.map fun e => (e.1, read e)) := by
  induction es with
  | nil => rfl
  | cons e es ih =>
    simp only [readEntries, List.mapM_cons] at ih ⊢
    rw [ih]
    rfl

end CoEmbed
