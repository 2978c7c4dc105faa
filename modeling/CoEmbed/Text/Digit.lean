/-!
# Digits

Numbers are written with the decimal digits of any script. Each script has its ten digits
in one run, from zero to nine.

* `Text.digitZeros` — the zeros of the scripts.
* `Text.digit?` — the value of a digit.
* `Text.plainDigit` — the digit of ASCII with the same value.

## Digit convention

Only the digits of positional decimal notation count. A raised digit, a fraction, or a
letter that stands for a number is none.
-/

namespace CoEmbed.Text

/-- The **zeros** of the scripts that have decimal digits. -/
def digitZeros : List Nat :=
  [48, 1632, 1776, 1984, 2406, 2534, 2662, 2790, 2918, 3046, 3174, 3302, 3430, 3558, 3664,
   3792, 3872, 4160, 4240, 6112, 6160, 6470, 6608, 6784, 6800, 6992, 7088, 7232, 7248,
   42528, 43216, 43264, 43472, 43504, 43600, 44016, 65296, 66720, 68912, 69734, 69872,
   69942, 70096, 70384, 70736, 70864, 71248, 71360, 71472, 71904, 72016, 72784, 73040,
   73120, 92768, 92864, 93008, 120782, 120792, 120802, 120812, 120822, 123200, 123632,
   125264, 130032]

/-- The run of ten digits that a character belongs to, by its zero. -/
def digitRun? (c : Char) : Option Nat :=
  digitZeros.find? fun z => decide (z ≤ c.toNat) && decide (c.toNat < z + 10)

/-- The **value of a digit**. -/
def digit? (c : Char) : Option Nat := (digitRun? c).map fun z => c.toNat - z

/-- A digit has a value below ten. -/
theorem digit?_lt_ten {c : Char} {d : Nat} (h : digit? c = some d) : d < 10 := by
  simp only [digit?, Option.map_eq_some_iff] at h
  obtain ⟨z, hz, rfl⟩ := h
  have := List.find?_some hz
  simp only [Bool.and_eq_true, decide_eq_true_eq] at this
  omega

/-- The digit of ASCII with the same value as a digit; any other character stays. -/
def plainDigit (c : Char) : Char :=
  match digit? c with
  | some d => Nat.digitChar d
  | none => c

end CoEmbed.Text
