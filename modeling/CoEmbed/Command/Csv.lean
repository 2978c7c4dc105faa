import CoEmbed.Command.Column
import CoEmbed.Command.Sheet
import CoEmbed.Interactions

/-!
# Logs in Comma-Separated Texts

A log is read from a text with a line of names and a line for each interaction.

* `Sheet.column` — a column of a sheet.
* `Frame.ofCsv` — the log of a text.
* `Frame.ofCsvColumns` — some of the columns of that log.

## Width convention

The first row fixes how many fields a row has. If it has more fields than there are names,
the fields in front of the others have no name, and the names belong to the others. A row
that is longer than the first one breaks the log; where only some columns are asked for, its
last fields are left out.

## Name convention

Names are taken as they stand, blanks included. A name that stands twice names the first of
its columns.
-/

namespace CoEmbed

/-- The names of a sheet, which has to have some. -/
def Sheet.header (s : Sheet) : Except Fault (List String) :=
  match s.names with
  | some names => .ok names
  | none => if s.complete then .error .emptyLog else .error .brokenLog

/-- The columns of a sheet, where a number of fields in front of each row has **no name**. -/
def Sheet.columns (s : Sheet) (names : List String) (unnamed : Nat) :
    List (String × List (Setting Float)) :=
  names.zipIdx.map fun e => (e.1, columnOf (s.fieldsAt (unnamed + e.2)))

/-- The **log of a text**. -/
def Frame.ofCsv (text : String) : Except Fault (Frame Float) := do
  let s := Sheet.ofText text
  let names ← s.header
  if !s.complete || s.isRagged names then throw .brokenLog
  return .ofColumns (s.columns names (s.width names - names.length))

/-- The log of a text with **some of its columns**, all of which have to be there. If there are
no others, no field is without a name. -/
def Frame.ofCsvColumns (chosen : List String) (text : String) : Except Fault (Frame Float) := do
  let s := Sheet.ofText text
  let names ← s.header
  if !s.complete && s.rows.isEmpty then throw .brokenLog
  if !(chosen.all fun n => names.contains n) then throw .badValue
  if !s.complete then throw .brokenLog
  let unnamed := if names.length = chosen.length then 0 else s.width names - names.length
  return .ofColumns ((s.columns names unnamed).filter fun c => chosen.contains c.1)

end CoEmbed
