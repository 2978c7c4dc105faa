import CoEmbed.Table
import CoEmbed.Vec

/-!
# Codes

An artifact is kept as a list of natural numbers, which a file holds as a text.

* `Coded` — a type whose values are written as numbers and read back.
* `Coded.Faithful` — every value is read back, whatever comes after it.
* `codeText`, `codeOfText?` — the text of a list of numbers.

## Length convention

A list is written with its length in front, so that a code says itself where it ends and
codes can stand one after the other.
-/

namespace CoEmbed

/-- Reads a value from the front of a list of numbers. -/
abbrev Decoder (β : Type) := StateT (List Nat) Option β

/-- A type whose values are **written as numbers**. -/
class Coded (β : Type) where
  /-- The numbers of a value. -/
  code : β → List Nat
  /-- The value at the front of some numbers. -/
  decode : Decoder β

namespace Coded

/-- Every value is **read back**, and what comes after it is left. -/
def Faithful (β : Type) [Coded β] : Prop :=
  ∀ (x : β) (rest : List Nat), decode (code x ++ rest) = some (x, rest)

/-- Gives the value up. -/
def refuse {β : Type} : Decoder β := fun _ => none

instance : Coded Nat where
  code n := [n]
  decode := fun ns => match ns with
    | n :: ns => some (n, ns)
    | [] => none

/-- A natural number is read back. -/
theorem faithful_nat : Faithful Nat := fun _ _ => rfl

instance : Coded Bool where
  code b := [b.toNat]
  decode := do return (← decode (β := Nat)) ≠ 0

instance : Coded Int where
  code
    | .ofNat n => [0, n]
    | .negSucc n => [1, n]
  decode := do
    if (← decode (β := Nat)) = 0 then return .ofNat (← decode (β := Nat))
    else return .negSucc (← decode (β := Nat))

/-- An integer is read back. -/
theorem faithful_int : Faithful Int := by
  intro x rest
  cases x <;> rfl

instance : Coded UInt64 where
  code w := [w.toNat]
  decode := do return UInt64.ofNat (← decode (β := Nat))

instance : Coded Float where
  code x := code x.toBits
  decode := do return Float.ofBits (← decode (β := UInt64))

variable {β γ : Type} [Coded β] [Coded γ]

instance : Coded (β × γ) where
  code p := code p.1 ++ code p.2
  decode := do return (← decode (β := β), ← decode (β := γ))

/-- A pair is read back if its parts are. -/
theorem faithful_prod (hβ : Faithful β) (hγ : Faithful γ) : Faithful (β × γ) := by
  intro p rest
  show (decode (β := β) ((code p.1 ++ code p.2) ++ rest)).bind
    (fun q => (decode (β := γ) q.2).bind fun r => some ((q.1, r.1), r.2)) = some (p, rest)
  rw [List.append_assoc, hβ, Option.bind_some, hγ, Option.bind_some]

/-- Reads so many values, one after the other. -/
def decodeTimes : Nat → Decoder (List β)
  | 0 => return []
  | n + 1 => do return (← decode (β := β)) :: (← decodeTimes n)

instance : Coded (List β) where
  code xs := xs.length :: xs.flatMap code
  decode := do decodeTimes (← decode (β := Nat))

/-- As many values are read as were written. -/
theorem decodeTimes_flatMap (h : Faithful β) (xs : List β) (rest : List Nat) :
    decodeTimes xs.length (xs.flatMap code ++ rest) = some (xs, rest) := by
  induction xs with
  | nil => rfl
  | cons x xs ih =>
    show (decode (β := β) ((code x ++ xs.flatMap code) ++ rest)).bind
      (fun q => (decodeTimes (β := β) xs.length q.2).bind fun r => some (q.1 :: r.1, r.2))
        = some (x :: xs, rest)
    rw [List.append_assoc, h, Option.bind_some, ih, Option.bind_some]

/-- A list is read back if its members are. -/
theorem faithful_list (h : Faithful β) : Faithful (List β) := by
  intro xs rest
  exact decodeTimes_flatMap h xs rest

instance : Coded (Option β) where
  code
    | none => [0]
    | some x => 1 :: code x
  decode := do
    if (← decode (β := Nat)) = 0 then return none else return some (← decode (β := β))

instance : Coded String where
  code s := code (s.toList.map Char.toNat)
  decode := do return String.ofList ((← decode (β := List Nat)).map Char.ofNat)

instance {κ : Type} [DecidableEq κ] [Coded κ] : Coded (Table κ β) where
  code t := code t.entries
  decode := do return Table.ofList (← decode (β := List (κ × β)))

instance {n : Nat} : Coded (Vec β n) where
  code v := code v.toList
  decode := do
    match Vec.ofList? n (← decode (β := List β)) with
    | some v => return v
    | none => refuse

end Coded

/-- The **text** of a list of numbers. -/
def codeText (ns : List Nat) : String := String.intercalate " " (ns.map fun n => toString n)

/-- The list of numbers of a text, if it is one. -/
def codeOfText? (s : String) : Option (List Nat) := (s.splitOn " ").mapM String.toNat?

end CoEmbed
