import CoEmbed.Setting

/-!
# Columns of One Kind

The numbers of a column are of one kind: where a value is missing, or is not given as a whole
number, the whole numbers beside it are reals as well.

* `Survey` — what has been seen of a column so far.
* `Survey.wantsReals` — whether the whole numbers of a column are taken as reals.
* `alike` — a column with its numbers of one kind.
* `alike_of_wantsReals_false` — a column that does not ask for reals stays as it is.

## Kind convention

A column with a text or a flag in it is left as it is, and so is one whose whole numbers do
not fit into words of 64 bits, with or without a sign. Behind a missing value no number is
asked whether it fits. A column with a whole number that is no finite real is left as it is,
too.
-/

namespace CoEmbed

variable {α : Type}

/-- What has been seen of a column **so far**: a missing value, a real, a flag, a whole number,
one that needs a word without a sign, and one that needs a sign. -/
structure Survey where
  missing : Bool
  real : Bool
  flag : Bool
  whole : Bool
  large : Bool
  negative : Bool

namespace Survey

/-- Nothing has been seen. -/
def start : Survey := ⟨false, false, false, false, false, false⟩

/-- With one more whole number. -/
def withWhole (s : Survey) (n : Int) : Survey :=
  if s.missing then { s with whole := true }
  else { s with
    whole := true
    large := s.large || decide ((twoTo 63 : Int) ≤ n)
    negative := s.negative || decide (n < 0) }

/-- The whole number and those before it do not fit into **words of one kind**. -/
def isOutgrown (s : Survey) (n : Int) : Bool :=
  !s.missing && ((s.withWhole n).large && (s.withWhole n).negative
    || decide ((twoTo 64 : Int) ≤ n) || decide (n < -(twoTo 63 : Int)))

/-- The whole numbers of a column are **taken as reals**. -/
def wantsReals [Numeral α] : Survey → List (Setting α) → Bool
  | s, [] => s.whole && !s.flag && (s.missing || s.real)
  | s, .absent :: vs => wantsReals { s with missing := true } vs
  | s, .real _ :: vs => wantsReals { s with real := true } vs
  | s, .flag _ :: vs => wantsReals { s with flag := true } vs
  | _, .text _ :: _ => false
  | s, .integer n :: vs =>
    if !Scalar.finite (Scalar.ofInt n : α) || s.isOutgrown n then false
    else wantsReals (s.withWhole n) vs

end Survey

/-- A whole number as a real. -/
def Setting.asReal [Numeral α] : Setting α → Setting α
  | .integer n => .real (Scalar.ofInt n)
  | v => v

/-- A column with its numbers **of one kind**. -/
def alike [Numeral α] (column : List (Setting α)) : List (Setting α) :=
  if Survey.start.wantsReals column then column.map Setting.asReal else column

/-- A column that does not ask for reals **stays as it is**. -/
theorem alike_of_wantsReals_false [Numeral α] (column : List (Setting α))
    (h : Survey.start.wantsReals column = false) : alike column = column := by
  simp [alike, h]

/-- A column keeps its length. -/
@[simp] theorem length_alike [Numeral α] (column : List (Setting α)) :
    (alike column).length = column.length := by
  unfold alike
  split <;> simp

end CoEmbed
