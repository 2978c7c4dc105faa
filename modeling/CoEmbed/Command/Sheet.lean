/-!
# Comma-Separated Texts

A text is taken apart into lines of fields by one pass over its characters.

* `Scan` — the state of the pass: where it stands, and what it has collected.
* `Scan.step` — what one character does.
* `Sheet` — the fields of a text: a line of names, and the rows below it.
* `Sheet.ofText` — the sheet of a text.
* `Scan.lines_step_quoted` — nothing ends a line between quotes.

## Line convention

A line ends with a line feed, a carriage return, or both. A line without any field, and one
of spaces and tabs alone, is skipped. A byte order mark in front of the text is no part of it.

## Quote convention

A field that opens with a quote goes on until the next quote that does not stand in front of
another one; two quotes stand for one of them. A quote inside any other field stands for itself.
-/

namespace CoEmbed

/-- **Where a scan stands**: in front of a line, behind a carriage return, in blanks at the
front of a line, in front of a field, in a field, in a quoted field, or behind a quote in one. -/
inductive Scan.Mark where
  | line
  | afterReturn
  | blanks
  | field
  | inField
  | quoted
  | quote
  deriving DecidableEq, Repr

/-- The **state of a scan**. What has been collected is kept with the latest first: the
characters of the field, the fields of the line, and the lines. -/
structure Scan where
  mark : Scan.Mark
  chars : List Char
  fields : List String
  lines : List (List String)

namespace Scan

/-- Nothing has been read. -/
def start : Scan := ⟨.line, [], [], []⟩

/-- The text of the characters of a field. -/
def fieldText (chars : List Char) : String := String.ofList chars.reverse

/-- The character belongs to the field. -/
def push (s : Scan) (c : Char) (mark : Mark) : Scan :=
  { s with mark := mark, chars := c :: s.chars }

/-- The field ends. -/
def endField (s : Scan) : Scan :=
  { s with mark := .field, chars := [], fields := fieldText s.chars :: s.fields }

/-- The field and its line end. -/
def endLine (s : Scan) (mark : Mark) : Scan :=
  let s := s.endField
  ⟨mark, [], [], s.fields.reverse :: s.lines⟩

/-- A character inside a field without quotes around it. -/
def inside (s : Scan) (c : Char) : Scan :=
  if c = '\n' then s.endLine .line
  else if c = '\r' then s.endLine .afterReturn
  else if c = ',' then s.endField
  else s.push c .inField

/-- A character in front of a field. -/
def before (s : Scan) (c : Char) : Scan :=
  if c = '"' then { s with mark := .quoted } else s.inside c

/-- A character in front of a line; a line that ends there is skipped. -/
def opening (s : Scan) (c : Char) : Scan :=
  if c = '\n' then { s with mark := .line, chars := [] }
  else if c = '\r' then { s with mark := .afterReturn, chars := [] }
  else if c = ' ' ∨ c = '\t' then s.push c .blanks
  else if s.mark = .blanks then s.inside c
  else s.before c

/-- What **one character** does. -/
def step (s : Scan) (c : Char) : Scan :=
  match s.mark with
  | .line | .blanks => s.opening c
  | .afterReturn => if c = '\n' then { s with mark := .line } else s.opening c
  | .field => s.before c
  | .inField => s.inside c
  | .quoted => if c = '"' then { s with mark := .quote } else s.push c .quoted
  | .quote => if c = '"' then s.push c .quoted else s.inside c

/-- Between quotes no line ends. -/
theorem lines_step_quoted (s : Scan) (c : Char) (h : s.mark = .quoted) :
    (s.step c).lines = s.lines := by
  rw [step, h]
  by_cases hc : c = '"' <;> simp [hc, push]

/-- The scan of a list of characters. -/
def run (cs : List Char) : Scan := cs.foldl step start

/-- The end of the text ends the line, if one has begun. -/
def finish (s : Scan) : Scan :=
  match s.mark with
  | .line | .afterReturn | .blanks | .quoted => s
  | .field | .inField | .quote => s.endLine .line

end Scan

/-- The **fields of a text**: the names in its first line, and the rows below. A sheet is
complete unless its text ends between quotes. -/
structure Sheet where
  names : Option (List String)
  rows : List (List String)
  complete : Bool
  deriving Repr

namespace Sheet

/-- A text without the byte order mark in front of it. -/
def withoutMark : List Char → List Char
  | [] => []
  | c :: cs => if c = Char.ofNat 0xfeff then cs else c :: cs

/-- The **sheet of a text**. -/
def ofText (text : String) : Sheet :=
  let s := (Scan.run (withoutMark text.toList)).finish
  let complete := decide (s.mark ≠ .quoted)
  match s.lines.reverse with
  | [] => ⟨none, [], complete⟩
  | names :: rows => ⟨some names, rows, complete⟩

/-- The number of fields of the first row, or of the names if there are more of them. -/
def width (s : Sheet) (names : List String) : Nat :=
  max names.length ((s.rows.head?.map List.length).getD 0)

/-- A row **after the first one** has more fields than the first row and the names have. -/
def isRagged (s : Sheet) (names : List String) : Bool :=
  (s.rows.drop 1).any fun r => decide (s.width names < r.length)

/-- The fields of all rows at an index; a row that is too short has an empty field there. -/
def fieldsAt (s : Sheet) (i : Nat) : List String := s.rows.map fun r => r.getD i ""

end Sheet

end CoEmbed
