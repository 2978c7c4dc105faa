/-!
# Blank Characters and Letter Case

Names of options are compared without the blanks around them and without regard to case.

* `Text.isBlank` — the characters that count as white space.
* `Text.isLayout` — those of them that lay out a text typed in ASCII.
* `Text.trim` — a text without the blanks at its ends.
* `Text.lowerAscii`, `Text.upperAscii` — the case maps of the letters of ASCII.

## Case convention

Every name this library knows is spelt in ASCII. A letter outside ASCII is mapped only
where its capital is a letter of ASCII, so a comparison of a mapped text with such a name
comes out as it would under the case maps of the whole character set.
-/

namespace CoEmbed.Text

/-- The characters that count as **white space**. -/
def isBlank (c : Char) : Bool :=
  let n := c.toNat
  (9 ≤ n && n ≤ 13) || (28 ≤ n && n ≤ 32) || n == 0x85 || n == 0xa0 || n == 0x1680
    || (0x2000 ≤ n && n ≤ 0x200a) || n == 0x2028 || n == 0x2029 || n == 0x202f || n == 0x205f
    || n == 0x3000

/-- Every blank of ASCII is blank. -/
theorem isBlank_of_isWhitespace (c : Char) (h : c.isWhitespace = true) : isBlank c = true := by
  simp only [Char.isWhitespace, Bool.or_eq_true, decide_eq_true_eq] at h
  rcases h with ((rfl | rfl) | rfl) | rfl <;> decide

/-- The blanks of ASCII that **lay out a text**: the space, and the controls from the tab to
the carriage return. -/
def isLayout (c : Char) : Bool :=
  let n := c.toNat
  (9 ≤ n && n ≤ 13) || n == 32

/-- What lays out a text is blank. -/
theorem isBlank_of_isLayout (c : Char) (h : isLayout c = true) : isBlank c = true := by
  simp only [isLayout, isBlank, Bool.or_eq_true, Bool.and_eq_true, decide_eq_true_eq,
    beq_iff_eq] at h ⊢
  omega

/-- A list of characters without those at its **ends** that a predicate names. -/
def trimmedOf (p : Char → Bool) (cs : List Char) : List Char :=
  ((cs.dropWhile p).reverse.dropWhile p).reverse

/-- A list of characters without the blanks at its ends. -/
def trimmed (cs : List Char) : List Char := trimmedOf isBlank cs

/-- A text without the blanks at its ends. -/
def trim (s : String) : String := String.ofList (trimmed s.toList)

/-- The text with the capital letters of ASCII replaced by small ones. -/
def lowerAscii (s : String) : String := String.ofList (s.toList.map Char.toLower)

/-- The capital of a letter, if that is a letter of ASCII. -/
def capital (c : Char) : Char :=
  if c.toNat = 0x131 then 'I' else if c.toNat = 0x17f then 'S' else c.toUpper

/-- The text with every letter replaced by its capital, where that is a letter of ASCII. -/
def upperAscii (s : String) : String := String.ofList (s.toList.map capital)

end CoEmbed.Text
