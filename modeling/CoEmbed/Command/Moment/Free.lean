import CoEmbed.Command.Moment.Draft
import CoEmbed.Command.Moment.Lexeme

/-!
# Moments in Free Form

A text that names a moment freely is read from left to right, a lexeme or a few of them at a time.

* `Lexeme.month?`, `Lexeme.unit?`, `Lexeme.half?`, `Lexeme.isIdle` — what words and signs say.
* `Draft.figures?` — what a number says, by its width and by what stands around it.
* `Draft.month?`, `Draft.zoneNamed`, `Draft.zoneOffset?` — what other lexemes say.
* `Draft.step?` — what the next lexeme says, and how many of those behind it are read with it.
* `Draft.read?` — a draft of all lexemes.
* `Moment.ofFree` — the moment of a text.

## Width convention

Four figures or two behind a whole date are the time of day. Six figures are a date, or the time
of day behind a number of the date. Eight figures are a date, and twelve or fourteen a date with
its time of day.

## Zone convention

A name of the common clock, or any name, in front of a distance turns its sign: the distance is
then what has to be added to reach that clock.
-/

namespace CoEmbed

namespace Lexeme

/-- The names of the months. -/
def monthNames : List (List String) :=
  [["jan", "january"], ["feb", "february"], ["mar", "march"], ["apr", "april"], ["may"],
   ["jun", "june"], ["jul", "july"], ["aug", "august"], ["sep", "sept", "september"],
   ["oct", "october"], ["nov", "november"], ["dec", "december"]]

/-- The names of the days of the week. -/
def weekdayNames : List String :=
  ["mon", "monday", "tue", "tuesday", "wed", "wednesday", "thu", "thursday", "fri", "friday",
   "sat", "saturday", "sun", "sunday"]

/-- The names of the units of a clock: hours, minutes and seconds. -/
def unitNames : List (List String) :=
  [["h", "hour", "hours"], ["m", "minute", "minutes"], ["s", "second", "seconds"]]

/-- Words that say nothing about a date. -/
def idleWords : List String :=
  ["at", "on", "and", "ad", "m", "t", "of", "st", "nd", "rd", "th"]

/-- Signs that say nothing about a date. -/
def idleSigns : List Char := ['.', ',', ';', '-', '/', '\'']

/-- The words for a number that is none. -/
def numberWords : List String := ["nan", "inf", "infinity"]

/-- The number of the **month** that a lexeme names. -/
def month? (l : Lexeme) : Option Nat :=
  (monthNames.findIdx? fun names => names.contains l.spelt).map (· + 1)

/-- The place of the **unit** that a lexeme names among hours, minutes and seconds. -/
def unit? (l : Lexeme) : Option Nat := unitNames.findIdx? fun names => names.contains l.spelt

/-- The **half of the day** that a lexeme names, true for the second one. -/
def half? (l : Lexeme) : Option Bool :=
  if l.spelt = "am" ∨ l.spelt = "a" then some false
  else if l.spelt = "pm" ∨ l.spelt = "p" then some true
  else none

/-- A lexeme that **says nothing** about a date. -/
def isIdle : Lexeme → Bool
  | blank => true
  | sign c => idleSigns.contains c
  | word cs => idleWords.contains (word cs).spelt
  | figures _ _ => false

/-- The figures of a lexeme that has nothing else. -/
def plain? : Lexeme → Option (List Char)
  | figures ds none => some ds
  | _ => none

/-- A lexeme that is a certain sign. -/
def isSign (c : Char) (l : Lexeme) : Bool := l = sign c

/-- The name of a zone: a few capital letters, or a letter for the common clock. -/
def zoneName? : Lexeme → Option String
  | word cs =>
    if cs.length ≤ 5 ∧ (cs.all Char.isUpper ∨ cs = ['z']) then some (String.ofList cs) else none
  | _ => none

end Lexeme

namespace Draft

open Lexeme

/-- An hour of the given half of the day. -/
def hourOf (n : Nat) (afternoon : Bool) : Nat :=
  if n < 12 ∧ afternoon then n + 12 else if n = 12 ∧ !afternoon then 0 else n

/-- The greatest number of digits in front of a fraction that is counted on. -/
def mostFigures : Nat := 28

/-- A fraction of sixty, if there is a fraction. -/
def sixtieths? (whole : List Char) (rest : Option (List Char)) : Option (Option Nat) :=
  if mostFigures < (Decimal.digits (Decimal.valueAfter 0 whole)).length then none
  else some ((rest.filter fun ds => ds.any fun c => c ≠ '0').map fun ds =>
    60 * Decimal.valueAfter 0 ds / tenTo ds.length)

/-- With minutes, and seconds if the minutes have a fraction. -/
def withMinutes? (d : Draft) (whole : List Char) (rest : Option (List Char)) : Option Draft :=
  (sixtieths? whole rest).map fun second =>
    { d with minute := some (Decimal.valueAfter 0 whole), second := second }

/-- With seconds, and the millionth parts of one. -/
def withSeconds (d : Draft) (whole : List Char) (rest : Option (List Char)) : Draft :=
  let digits := ((rest.getD []) ++ List.replicate 6 '0').take 6
  { d with
    second := some (Decimal.valueAfter 0 whole)
    micro := some (Decimal.valueAfter 0 digits) }

/-- With a number of a **unit** of the clock. -/
def withUnit? (d : Draft) (whole : List Char) (rest : Option (List Char)) : Nat → Option Draft
  | 0 => (sixtieths? whole rest).map fun minute =>
    { d with hour := some (Decimal.valueAfter 0 whole), minute := minute.or d.minute }
  | 1 => d.withMinutes? whole rest
  | 2 => some (d.withSeconds whole rest)
  | _ => some d

/-- The number of two figures at a place. -/
def twoAt (i : Nat) (ds : List Char) : Nat := Decimal.valueAfter 0 ((ds.drop i).take 2)

/-- With the hour, the minute and the second of six figures. -/
def withClock (d : Draft) (ds : List Char) (rest : Option (List Char)) : Draft :=
  { d with hour := some (twoAt 0 ds), minute := some (twoAt 2 ds) }.withSeconds (ds.drop 4) rest

/-- With the figures of a **whole date**, and those of the time of day behind them. -/
def withDate? (d : Draft) (ds : List Char) : Option Draft := do
  let d ← d.pushYear? (Decimal.valueAfter 0 (ds.take 4))
  let d := (d.push (twoAt 4 ds)).push (twoAt 6 ds)
  let d := if 8 < ds.length then { d with hour := some (twoAt 8 ds), minute := some (twoAt 10 ds) }
    else d
  return if 12 < ds.length then { d with second := some (twoAt 12 ds) } else d

/-- The unit that a number counts, and how many lexemes behind it are read for that. A unit in
front of the number says that the number counts the next smaller one. -/
def unitAround? (before after : List Lexeme) : Option (Nat × Nat) :=
  match after.head?.bind unit? with
  | some u => some (u, 1)
  | none => match after with
    | .blank :: l :: _ => match l.unit? with
      | some u => some (u, 2)
      | none => behind
    | _ => behind
where
  /-- The unit in front of the number. -/
  behind : Option (Nat × Nat) :=
    match before.head?.bind unit?, before, after with
    | some u, _, _ => some (u + 1, 0)
    | none, .blank :: l :: _, [] => l.unit?.map fun u => (u + 1, 0)
    | none, _, _ => none

/-- With the text of a lexeme as a number of the date. -/
def pushLexeme? (d : Draft) (l : Lexeme) : Option Draft := l.plain?.bind d.pushFigures?

/-- With a lexeme that names a month, or else is a number of the date. -/
def pushPart? (d : Draft) (l : Lexeme) : Option Draft :=
  match l.month? with
  | some n => d.pushMonth? n
  | none => d.pushLexeme? l

/-- With figures, and the numbers that equal signs set apart from them. -/
def withSigned? (d : Draft) (ds : List Char) (c : Char) (after : List Lexeme) :
    Option (Draft × Nat) := do
  let d ← d.pushFigures? ds
  match after with
  | _ :: l :: after =>
    if l.isIdle then return (d, 1)
    let d ← d.pushPart? l
    match after with
    | t :: after =>
      if t.isSign c then
        let l ← after.head?
        return (← d.pushPart? l, 4)
      else return (d, 2)
    | [] => return (d, 2)
  | _ => return (d, 1)

/-- With a number of hours in front of a colon, and what stands behind it. -/
def withColon? (d : Draft) (whole : List Char) (minutes : Lexeme) (after : List Lexeme) :
    Option (Draft × Nat) := do
  let d := { d with hour := some (Decimal.valueAfter 0 whole) }
  let d ← match minutes with
    | .figures whole rest => d.withMinutes? whole rest
    | _ => none
  match after with
  | .sign ':' :: l :: _ => match l with
    | .figures whole rest => return (d.withSeconds whole rest, 4)
    | _ => none
  | _ => return (d, 2)

/-- With a number in front of a lexeme that says nothing, or at the end. -/
def withLast? (d : Draft) (whole : List Char) (rest : Option (List Char)) (after : List Lexeme) :
    Option (Draft × Nat) :=
  let n := Decimal.valueAfter 0 whole
  let hasFraction := rest.any fun ds => ds.any fun c => c ≠ '0'
  match (after[1]?).bind half? with
  | some afternoon => some ({ d with hour := some (hourOf n afternoon) }, 2)
  | none => (d.pushValue? n hasFraction).map fun d => (d, 1)

/-- With a number that nothing sets apart from what stands behind it. -/
def withAny? (d : Draft) (whole : List Char) (rest : Option (List Char)) (after : List Lexeme) :
    Option (Draft × Nat) :=
  let n := Decimal.valueAfter 0 whole
  let hasFraction := rest.any fun ds => ds.any fun c => c ≠ '0'
  match after.head?.bind half? with
  | some afternoon =>
    if n < 24 then some ({ d with hour := some (hourOf n afternoon) }, 1)
    else if d.mayBeDay n hasFraction then (d.pushValue? n hasFraction).map fun d => (d, 0)
    else none
  | none =>
    if d.mayBeDay n hasFraction then (d.pushValue? n hasFraction).map fun d => (d, 0) else none

/-- What a **number** says, and how many of the lexemes behind it are read with it. -/
def figures? (d : Draft) (before : List Lexeme) (whole : List Char) (rest : Option (List Char))
    (after : List Lexeme) : Option (Draft × Nat) :=
  let width := whole.length + (rest.map fun ds => ds.length + 1).getD 0
  let next (p : Lexeme → Bool) : Bool := after.head?.any p
  if d.numbers.length = 3 ∧ (width = 2 ∨ width = 4) ∧ d.hour.isNone
      ∧ !next (fun l => l.isSign ':' || l.unit?.isSome) then
    if rest.isSome then none
    else
      let d := { d with hour := some (twoAt 0 whole) }
      some (if width = 4 then { d with minute := some (twoAt 2 whole) } else d, 0)
  else if width = 6 ∨ whole.length = 6 then
    if whole.length < 6 then none
    else if d.numbers = [] ∧ rest.isNone then
      some (((d.push (twoAt 0 whole)).push (twoAt 2 whole)).push (twoAt 4 whole), 0)
    else some (d.withClock whole rest, 0)
  else if width = 8 ∨ width = 12 ∨ width = 14 then
    if rest.isSome then none else (d.withDate? whole).map fun d => (d, 0)
  else match unitAround? before after with
    | some (unit, read) => (d.withUnit? whole rest unit).map fun d => (d, read)
    | none => match after with
      | .sign ':' :: minutes :: after => d.withColon? whole minutes after
      | [] => d.withLast? whole rest []
      | l :: _ =>
        match ['-', '/', '.'].find? fun c => l.isSign c with
        | some c => if rest.isSome then none else d.withSigned? whole c after
        | none =>
          if l.isIdle then d.withLast? whole rest after else d.withAny? whole rest after

/-- What a **month** with a name says, and the numbers that a sign or a word ties to it. -/
def month? (present : Nat) (d : Draft) (n : Nat) (after : List Lexeme) : Option (Draft × Nat) := do
  let d ← d.pushMonth? n
  match after with
  | .sign c :: after =>
    if c ≠ '-' ∧ c ≠ '/' then return (d, 0)
    let d ← d.pushLexeme? (← after.head?)
    if (after[1]?).any fun l => l.isSign c then
      return (← d.pushLexeme? (← after[2]?), 4)
    else return (d, 2)
  | .blank :: l :: .blank :: year :: _ =>
    if l.spelt ≠ "of" then return (d, 0)
    match year.plain? with
    | some ds => return (← d.pushYear? (fullYear present (Decimal.valueAfter 0 ds)), 4)
    | none => return (d, 4)
  | _ => return (d, 0)

/-- With the **name of a zone**. A sign behind it is turned round, and a name of the common clock
then names no zone. -/
def zoneNamed (d : Draft) (name : String) (after : List Lexeme) : Draft :=
  if after.head?.any fun l => l.isSign '+' || l.isSign '-' then
    { d with turned := true, zone := none, zoneName := if isCommon name then none else some name }
  else { d with zoneName := some name, zone := if name = "z" then some 0 else none }

/-- A zone may be named: there is a time of day, and no zone. -/
def awaitsZone (d : Draft) : Bool := d.hour.isSome && d.zoneName.isNone

/-- With the **distance of the clock** from the common one, and a name for it in brackets. -/
def zoneOffset? (d : Draft) (behind : Bool) (after : List Lexeme) : Option (Draft × Nat) := do
  let ds ← (← after.head?).plain?
  let (hours, minutes, read) ←
    if ds.length = 4 then some (twoAt 0 ds, twoAt 2 ds, 1)
    else if (after[1]?).any fun l => l.isSign ':' then do
      let minutes ← (← after[2]?).plain?
      some (Decimal.valueAfter 0 ds, Decimal.valueAfter 0 minutes, 3)
    else if ds.length ≤ 2 then some (Decimal.valueAfter 0 ds, 0, 1)
    else none
  let seconds : Int := (3600 * hours + 60 * minutes : Nat)
  let d := { d with zone := some (if behind != d.turned then -seconds else seconds), turned := false }
  match after.drop read with
  | l :: .sign '(' :: name :: .sign ')' :: _ => match name.zoneName? with
    | some name =>
      if l.isIdle ∧ 3 ≤ name.length ∧ d.awaitsZone then
        return ({ d with zoneName := some name }, read + 4)
      else return (d, read)
    | none => return (d, read)
  | _ => return (d, read)

/-- With the half of the day that the time is in, counted from twelve o'clock. -/
def withHalf? (d : Draft) (afternoon : Bool) : Option Draft :=
  match d.hour with
  | some n => if n ≤ 12 then some { d with hour := some (hourOf n afternoon) } else none
  | none => none

/-- What the **next lexeme** says, and how many of those behind it are read with it. -/
def step? (present : Nat) (d : Draft) (before : List Lexeme) (l : Lexeme) (after : List Lexeme) :
    Option (Draft × Nat) :=
  match l with
  | .figures whole rest => d.figures? before whole rest after
  | l =>
    if numberWords.contains l.spelt then none
    else if weekdayNames.contains l.spelt then some ({ d with weekday := true }, 0)
    else match l.month?, l.half?, l.zoneName? with
      | some n, _, _ => d.month? present n after
      | none, some afternoon, _ => (d.withHalf? afternoon).map fun d => (d, 0)
      | none, none, name =>
        match if d.awaitsZone && d.zone.isNone then name else none with
        | some name => some (d.zoneNamed name after, 0)
        | none =>
          if d.hour.isSome && (l.isSign '+' || l.isSign '-') then
            d.zoneOffset? (l.isSign '-') after
          else if l.isIdle then some (d, 0)
          else none

/-- Reads lexemes **from left to right**, behind those that were read with an earlier one. -/
def read? (present : Nat) (d : Draft) (skipped : Nat) (before : List Lexeme) :
    List Lexeme → Option Draft
  | [] => some d
  | l :: after =>
    if 0 < skipped then read? present d (skipped - 1) (l :: before) after
    else match d.step? present before l after with
      | some (d, read) => read? present d read (l :: before) after
      | none => none

end Draft

/-- The **moment of a text** in free form, read in the present year. -/
def Moment.ofFree (present : Nat) (s : String) : Except Fault Moment :=
  match Draft.start.read? present 0 [] (lexemes s) with
  | some d => d.moment present (s.toList.map Text.plainDigit)
  | none => .error .badDate

end CoEmbed
