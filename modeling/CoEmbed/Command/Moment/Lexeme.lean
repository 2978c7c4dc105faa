import CoEmbed.Decimal.Reading

/-!
# Lexemes of a Date

A text that names a moment freely is taken apart into numbers, words, blanks and signs.

* `Lexeme` — one piece of such a text.
* `Lexeme.Run` — characters that may belong together.
* `Lexeme.Run.lexemes` — what becomes of a run that has ended.
* `lexemes` — the lexemes of a text.

## Point convention

A point between digits belongs to the number, and so does a comma behind two of them or more. A
point also ties letters to what surrounds them; a run that holds letters, several points, or a
point at its end is taken apart at each of them again. Where a run ends in a single letter behind
a point, at the end of the text, it stays whole and means nothing.

## Character convention

Digits of all scripts are read alike. Characters without a picture and a code are left out.
-/

namespace CoEmbed

/-- A **piece of a text**: figures, with those behind the point if there is one; a word; a blank;
or any other sign. -/
inductive Lexeme where
  | figures (whole : List Char) (rest : Option (List Char))
  | word (cs : List Char)
  | blank
  | sign (c : Char)
  deriving DecidableEq, Repr

namespace Lexeme

/-- The characters of a run, the latest first; whether the latest one belongs to a word, whether
points have been seen, and whether letters have. -/
structure Run where
  chars : List Char
  inWord : Bool
  dotted : Bool
  letters : Bool

/-- The piece that characters of one kind make. -/
def ofChars (cs : List Char) : Lexeme :=
  match cs with
  | [] => blank
  | c :: cs =>
    if c.isDigit then figures (c :: cs) none
    else if c.isAlpha then word (c :: cs)
    else sign c

/-- A point or a comma. -/
def isPoint (c : Char) : Bool := c = '.' || c = ','

/-- Characters taken apart **at their points**, which are pieces themselves. -/
def atPoints (cs : List Char) : List Lexeme :=
  ((cs.splitBy fun a b => !isPoint a && !isPoint b).filter fun p => !p.isEmpty).map ofChars

namespace Run

/-- The run that a character begins, if it begins one. -/
def ofChar? (c : Char) : Option Run :=
  if c.isDigit then some ⟨[c], false, false, false⟩
  else if c.isAlpha then some ⟨[c], true, false, false⟩
  else none

/-- The latest character is a point. -/
def atPoint (r : Run) : Bool := r.chars.head? == some '.'

/-- The run with **one more character**, if that belongs to it. -/
def push? (r : Run) (c : Char) : Option Run :=
  let s := { r with chars := c :: r.chars, letters := r.letters || r.inWord }
  if r.inWord then
    if c.isAlpha then some s
    else if c = '.' then some { s with dotted := true }
    else if r.dotted && c.isDigit && r.atPoint then some { s with inWord := false }
    else none
  else if c.isDigit then some s
  else if c = '.' then some { s with dotted := true }
  else if c = ',' && !r.dotted && decide (2 ≤ r.chars.length) then some { s with dotted := true }
  else if r.dotted && c.isAlpha && r.atPoint then some { s with inWord := true }
  else none

/-- The run, when a character that does not belong to it has been seen. -/
def closed (r : Run) : Run := { r with letters := r.letters || r.inWord }

/-- The **pieces of a run** that has ended. -/
def lexemes (r : Run) : List Lexeme :=
  let cs := r.chars.reverse
  let ends := (r.chars.head?.map isPoint).getD false
  if !r.dotted then [ofChars cs]
  else if r.letters || decide (1 < cs.count '.') || ends then atPoints cs
  else if r.inWord || decide (1 < (cs.filter isPoint).length) then [word cs]
  else [figures (cs.takeWhile Char.isDigit) (some ((cs.dropWhile Char.isDigit).drop 1))]

end Run

/-- The pieces that a character makes by itself, if it begins no run. -/
def ofSingle (c : Char) : List Lexeme := if Text.isBlank c then [blank] else [sign c]

/-- The pieces of the characters behind a run. -/
def scan : Option Run → List Char → List Lexeme
  | r, [] => (r.map Run.lexemes).getD []
  | none, c :: cs => match Run.ofChar? c with
    | some r => scan (some r) cs
    | none => ofSingle c ++ scan none cs
  | some r, c :: cs => match r.push? c with
    | some r => scan (some r) cs
    | none => r.closed.lexemes ++ match Run.ofChar? c with
      | some r => scan (some r) cs
      | none => ofSingle c ++ scan none cs

/-- The words of a lexeme, in small letters. -/
def spelt : Lexeme → String
  | word cs => Text.lowerAscii (String.ofList cs)
  | figures _ _ | blank | sign _ => ""

end Lexeme

/-- The **lexemes of a text**. -/
def lexemes (s : String) : List Lexeme :=
  Lexeme.scan none ((s.toList.filter fun c => c.toNat ≠ 0).map Text.plainDigit)

end CoEmbed
