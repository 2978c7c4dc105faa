import CoEmbed.Command.Moment

/-!
# Moments in Figures, Largest Unit First

A moment may be written in figures alone: year, month, day, hour, minute, second and the parts
of the second, in this order, and then the distance of the clock from the common one.

* `Ordered.pair?` — a number of one or two digits.
* `Ordered.zone?` — the distance of the clock.
* `Ordered.afterDate?` — the time of day.
* `Ordered.afterYear?` — month and day.
* `Moment.ofOrdered?` — the moment of a text.

## Width convention

A year has four digits. Any other number has two of them, or one where a separator sets it apart.
A year below zero, with nothing behind it, may have fewer digits.

## Separator convention

Year, month and day stand side by side, or two equal separators stand between them. A day and
an hour are set apart by a letter or a blank, and the numbers of a time by colons or not at all.
What is left out at the end counts as its least value; an hour cannot be left out behind the
sign that announces it.
-/

namespace CoEmbed

namespace Ordered

/-- The characters that may stand between year, month and day. -/
def separators : List Char := ['-', '.', '/', '\\', ' ']

/-- The number of **one or two digits** at the front, how many there are, and the rest. -/
def pair? : List Char → Option (Nat × Nat × List Char)
  | a :: b :: cs =>
    if !a.isDigit then none
    else if b.isDigit then some (Decimal.valueAfter 0 [a, b], 2, cs)
    else some (Decimal.digitValue a, 1, b :: cs)
  | [a] => if a.isDigit then some (Decimal.digitValue a, 1, []) else none
  | [] => none

/-- The rest is not longer than the text, but for the digits in front of it. -/
theorem length_of_pair? {cs rest : List Char} {n places : Nat}
    (h : pair? cs = some (n, places, rest)) : rest.length + places = cs.length := by
  match cs with
  | [] => simp [pair?] at h
  | [a] =>
    simp only [pair?] at h
    split at h <;> simp_all
  | a :: b :: cs =>
    simp only [pair?] at h
    split at h
    · simp at h
    · split at h
      all_goals
        simp only [Option.some.injEq, Prod.mk.injEq] at h
        obtain ⟨-, rfl, rfl⟩ := h
        rfl

/-- Nothing but layout is left. -/
def ended (cs : List Char) : Bool := cs.all Text.isLayout

/-- The seconds of an offset in hours and minutes, and what stands behind it. -/
def offset? (cs : List Char) : Option (Int × List Char) := do
  let (hours, _, cs) ← pair? cs
  guard (hours < 24)
  if cs.isEmpty then return ((3600 * hours : Nat), [])
  let cs := match cs with
    | ':' :: cs => cs
    | cs => cs
  let (minutes, _, cs) ← pair? cs
  guard (minutes < 60)
  return ((3600 * hours + 60 * minutes : Nat), cs)

/-- The **distance of the clock** from the common one, at the end of a text. -/
def zone? (m : Moment) (cs : List Char) : Option Moment :=
  match cs.dropWhile Text.isLayout with
  | [] => some m
  | 'Z' :: cs => if ended cs then some m else none
  | '+' :: cs => do
    let (seconds, cs) ← offset? cs
    if ended cs then some { m with ahead := seconds } else none
  | '-' :: cs => do
    let (seconds, cs) ← offset? cs
    if ended cs then some { m with ahead := -seconds } else none
  | _ => none

/-- The greatest number of digits that the parts of a second are given with. -/
def finestDigits : Nat := 18

/-- What follows the second: its parts, and the distance of the clock. -/
def afterSecond? (m : Moment) : List Char → Option Moment
  | '.' :: cs =>
    let ds := cs.takeWhile Char.isDigit
    if finestDigits < ds.length then none
    else zone? (m.withDigits ds) (cs.dropWhile Char.isDigit)
  | cs => zone? m cs

/-- Seconds, which are added to the clock. -/
def second? (spaced : Bool) (m : Moment) (cs : List Char) : Option Moment := do
  let (n, places, cs) ← pair? cs
  guard (n < 60 ∧ (spaced ∨ places = 2))
  afterSecond? { m with clock := m.clock + n } cs

/-- Minutes, which are added to the clock, and what follows them. -/
def minute? (spaced : Bool) (m : Moment) (cs : List Char) : Option Moment := do
  let (n, places, cs) ← pair? cs
  guard (n < 60 ∧ (spaced ∨ places = 2))
  let m := { m with clock := m.clock + 60 * n }
  match spaced, cs with
  | true, ':' :: cs => second? true m cs
  | false, c :: cs => if c.isDigit then second? false m (c :: cs) else zone? m (c :: cs)
  | _, cs => zone? m cs

/-- The **time of day** behind a date. -/
def afterDate? (d : Date) : List Char → Option Moment
  | [] => some (.ofDate d)
  | c :: cs => do
    guard (c = 'T' ∨ c = ' ')
    let (n, places, cs) ← pair? cs
    guard (n < 24)
    let m := { Moment.ofDate d with clock := 3600 * n }
    match cs with
    | ':' :: cs => minute? true m cs
    | c :: cs =>
      if c.isDigit then minute? false m (c :: cs)
      else if places = 2 then zone? m (c :: cs) else none
    | [] => if places = 2 then some m else none

/-- The day behind a month. -/
def afterMonth? (separator : Option Char) (year : Int) (month : Nat) (cs : List Char) :
    Option Moment := do
  let (n, places, cs) ← pair? cs
  let d : Date := ⟨year, month, n⟩
  guard (d.isValid ∧ (separator.isSome ∨ places = 2))
  afterDate? d cs

/-- **Month and day** behind a year, with a separator in front of each of them or none. -/
def afterYear? (year : Int) : List Char → Option Moment
  | [] => some (.ofDate ⟨year, 1, 1⟩)
  | c :: cs => do
    let separator := if c.isDigit then none else some c
    guard (c.isDigit ∨ c ∈ separators)
    let (month, places, cs) ← pair? (if separator.isSome then cs else c :: cs)
    guard (1 ≤ month ∧ month ≤ 12 ∧ (separator.isSome ∨ places = 2))
    match separator, cs with
    | some _, [] => some (.ofDate ⟨year, month, 1⟩)
    | none, [] => none
    | some s, t :: cs => if t = s then afterMonth? separator year month cs else none
    | none, cs => afterMonth? separator year month cs

/-- A year of a few digits below zero, with nothing around it. -/
def fewDigits? : List Char → Option Moment
  | '-' :: ds =>
    if ds ≠ [] ∧ ds.length < 4 ∧ ds.all Char.isDigit then
      some (.ofDate ⟨-(Decimal.valueAfter 0 ds : Nat), 1, 1⟩)
    else none
  | _ => none

end Ordered

/-- The **moment of a text** in figures, the largest unit first. -/
def Moment.ofOrdered? (s : String) : Option Moment :=
  let cs := s.toList
  let body := match cs.dropWhile Text.isLayout with
    | '-' :: body => body
    | body => body
  let ds := body.take 4
  if ds.length = 4 ∧ ds.all Char.isDigit then
    let size : Int := (Decimal.valueAfter 0 ds : Nat)
    Ordered.afterYear? (if s.startsWith "-" then -size else size) (body.drop 4)
  else Ordered.fewDigits? cs

end CoEmbed
