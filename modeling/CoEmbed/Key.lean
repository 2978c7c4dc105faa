import CoEmbed.Text.Quoted

/-!
# Keys

Users and items are named by keys.

* `Key` — a text, a number, a flag, or the place of a key that the data leave out.
* `Key.quoted` — the key as it stands in a message.
* `Key.plain` — the key as it stands in a listing.

## Identity convention

A number and the text of the same number are different keys. A number that is not given as
a whole number is named by its shortest text. A missing key is a key like any other: what it
may do is decided where tables are built, not here.

Only values that can be looked up in a table are keys, so a list or another table is none. Values
that count as equal there, such as the number one, the flag for true and the decimal `1.0`, are
one key, and whoever reads them chooses the one that stands for all of them: two keys are never
equal otherwise than as members of this type.
-/

namespace CoEmbed

/-- The **name of a user or an item**. -/
inductive Key where
  | text (s : String)
  | number (n : Int)
  | decimal (shortest : String)
  | flag (b : Bool)
  | missing
  deriving DecidableEq, Repr, Inhabited

/-- How a flag is written. -/
def flagText (b : Bool) : String := if b then "True" else "False"

namespace Key

/-- The key as it stands in a message, a text between quotes. -/
def quoted : Key → String
  | .text s => Text.quoted s
  | .number n => toString n
  | .decimal t => t
  | .flag b => flagText b
  | .missing => "None"

/-- The key as it stands in a listing, a text without quotes. -/
def plain : Key → String
  | .text s => s
  | .number n => toString n
  | .decimal t => t
  | .flag b => flagText b
  | .missing => "None"

end Key

end CoEmbed
