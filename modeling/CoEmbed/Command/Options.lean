import CoEmbed.Setting

/-!
# Command-Line Options

A command takes options that are named with two dashes, and nothing else.

* `OptionSpec` — an option and the shape of its value.
* `classifyWord` — what a word of the command line is.
* `CommandLine`, `readOptions` — what a command line asks for.
* `readOptions_ambiguous` — a word that may be short for several options is a mistake.
* `helpLines` — the description of a command and of its options.

## Word convention

An option may be shortened as long as only one begins that way, and its value may follow an
equals sign. Behind a single dash stand letters, each of them an option of its own. A word that
looks like a negative number, or that has a space in it, is a value even if it begins with a
dash. An option that is given twice keeps its last value.

## Order convention

A word that may be short for several options is a mistake wherever it stands. The others are
read from left to right: an option without its value is a mistake where it stands, a word that
belongs nowhere is a mistake at the end of the line, and a call for help is answered unless a
mistake stands before it. Behind two dashes alone no word belongs anywhere.
-/

namespace CoEmbed

/-- The **shape** of an option's value; a flag has none. -/
inductive OptionShape where
  | help
  | flag (value : Bool)
  | text
  | whole
  | real
  | choice (names : List String)
  deriving Repr

/-- An **option**: how it is spelt, the name of what it sets, the shape of its value, and
what is said about it. -/
structure OptionSpec where
  spellings : List String
  target : String
  shape : OptionShape
  about : String
  deriving Repr

/-- What a word of the command line **is**. -/
inductive OptionWord where
  | value
  | option (spec : OptionSpec) (attached : Option String)
  | letters (tail : List Char)
  | stop
  | ambiguous
  | unknown

/-- The shape of a call for help. -/
def OptionShape.isHelp : OptionShape → Bool
  | help => true
  | flag _ | text | whole | real | choice _ => false

/-- The value of an option, if its word has the right shape. -/
def OptionShape.read? (s : OptionShape) (word : String) : Option (Setting Float) :=
  match s with
  | .help | .flag _ => none
  | .text => some (.text word)
  | .whole => (Decimal.readWhole? word).map .integer
  | .real => (Numeral.ofText? word).map .real
  | .choice names => if names.contains word then some (.text word) else none

/-- The part of a word in front of its first equals sign, and the part behind it. -/
def splitAttached (word : List Char) : List Char × Option (List Char) :=
  match word.span fun c => c ≠ '=' with
  | (name, _ :: value) => (name, some value)
  | (name, []) => (name, none)

/-- A word without the line feed at its end. -/
def withoutFeed (word : List Char) : List Char :=
  if word.getLast? = some '\n' then word.dropLast else word

/-- A word that looks like a negative number, in the digits of any script. -/
def looksNegative (word : List Char) : Bool :=
  let isDigit (c : Char) : Bool := (Text.digit? c).isSome
  match withoutFeed word with
  | '-' :: cs => match cs.span isDigit with
    | (whole, []) => !whole.isEmpty
    | (_, '.' :: fraction) => !fraction.isEmpty && fraction.all isDigit
    | _ => false
  | _ => false

/-- The option with a spelling. -/
def spelt (specs : List OptionSpec) (name : String) : Option OptionSpec :=
  specs.find? fun o => o.spellings.contains name

/-- The options with a spelling that begins with the given characters. -/
def beginning (specs : List OptionSpec) (name : List Char) : List OptionSpec :=
  specs.filter fun o => o.spellings.any fun s => name.isPrefixOf s.toList

/-- The option that a letter behind a single dash stands for. -/
def letterOption (specs : List OptionSpec) (c : Char) : Option OptionSpec :=
  spelt specs (String.ofList ['-', c])

/-- What a word is that is not an option as it stands: behind two dashes the **beginning** of
one, behind a single dash a **letter** with more letters behind it. -/
def classifyRest (specs : List OptionSpec) (name : List Char) (attached : Option String) :
    List Char → OptionWord
  | '-' :: cs => match beginning specs name with
    | [o] => .option o attached
    | _ :: _ => .ambiguous
    | [] => if cs.contains ' ' then .value else .unknown
  | c :: cs =>
    if (letterOption specs c).isSome then .letters cs
    else if looksNegative ('-' :: c :: cs) || (c :: cs).contains ' ' then .value
    else .unknown
  | [] => .value

/-- What a word **is**, where the given options may stand. -/
def classifyWord (specs : List OptionSpec) (word : String) : OptionWord :=
  match word.toList with
  | ['-', '-'] => .stop
  | '-' :: cs =>
    let (name, attached) := splitAttached ('-' :: cs)
    match spelt specs word, attached, spelt specs (String.ofList name) with
    | some o, _, _ => .option o none
    | none, some value, some o =>
      if o.shape.isHelp && name.length = 2 then .letters value else .option o (String.ofList value)
    | none, _, _ => classifyRest specs name (attached.map String.ofList) cs
  | _ => .value

/-- Some letters that all **call for help**. -/
def callForHelp (specs : List OptionSpec) (letters : List Char) : Bool :=
  !letters.isEmpty && letters.all fun c => (letterOption specs c).any fun o => o.shape.isHelp

/-- What a **command line asks for**. -/
inductive CommandLine where
  | mistaken
  | help
  | options (given : List (String × Setting Float))

/-- The command line with one more option in front. -/
def CommandLine.setting (target : String) (v : Setting Float) : CommandLine → CommandLine
  | .options given => .options ((target, v) :: given)
  | other => other

/-- Reads a command line **word by word**. The flag says that a word before it belongs
nowhere. -/
def readWords (specs : List OptionSpec) : Bool → List String → CommandLine
  | stray, [] => if stray then .mistaken else .options []
  | stray, word :: words =>
    match classifyWord specs word with
    | .ambiguous | .stop => .mistaken
    | .value | .unknown => readWords specs true words
    | .letters tail => if callForHelp specs tail then .help else .mistaken
    | .option o none => match o.shape with
      | .help => .help
      | .flag b => (readWords specs stray words).setting o.target (.flag b)
      | shape => match words with
        | [] => .mistaken
        | value :: rest => match classifyWord specs value, shape.read? value with
          | .value, some v => (readWords specs stray rest).setting o.target v
          | _, _ => .mistaken
    | .option o (some value) => match o.shape.read? value with
      | some v => (readWords specs stray words).setting o.target v
      | none => .mistaken

/-- A word may be short for **several options**. -/
def isAmbiguous (specs : List OptionSpec) (word : String) : Bool :=
  match classifyWord specs word with
  | .ambiguous => true
  | .value | .option _ _ | .letters _ | .stop | .unknown => false

/-- The words in front of two dashes alone. -/
def beforeStop (words : List String) : List String := words.takeWhile fun w => decide (w ≠ "--")

/-- Reads a **command line**. -/
def readOptions (specs : List OptionSpec) (words : List String) : CommandLine :=
  if (beforeStop words).any (isAmbiguous specs) then .mistaken else readWords specs false words

/-- A word that may be short for several options is a **mistake**, also behind a call for
help. -/
theorem readOptions_ambiguous (specs : List OptionSpec) (words : List String) (w : String)
    (hw : w ∈ beforeStop words) (h : isAmbiguous specs w = true) :
    readOptions specs words = .mistaken := by
  rw [readOptions, if_pos]
  exact List.any_eq_true.2 ⟨w, hw, h⟩

/-- The value that an option was given last. -/
def lastGiven (given : List (String × Setting Float)) (target : String) :
    Option (Setting Float) :=
  given.reverse.lookup target

/-- The text that an option was given last. -/
def lastText (given : List (String × Setting Float)) (target : String) : Option String :=
  match lastGiven given target with
  | some (.text s) => some s
  | _ => none

/-! ### Help -/

/-- The width of a page of help. -/
def pageWidth : Nat := 78

/-- The column where the description of an option begins. -/
def aboutColumn : Nat := 24

/-- So many blanks. -/
def blanks (n : Nat) : String := String.ofList (List.replicate n ' ')

/-- Parts put on lines of a width, with a blank between them; a part that is too long has a
line of its own. The first line is begun already. -/
def fillLines (width : Nat) : String → List String → List String
  | line, [] => [line]
  | line, part :: parts =>
    if line = "" then fillLines width part parts
    else if line.length + 1 + part.length ≤ width then
      fillLines width (line ++ " " ++ part) parts
    else line :: fillLines width part parts

/-- The option as it stands in a summary, with a name for its value. -/
def OptionSpec.withValue (o : OptionSpec) (spelling : String) : String :=
  match o.shape with
  | .help | .flag _ => spelling
  | .choice names => spelling ++ " \x7b" ++ String.intercalate "," names ++ "\x7d"
  | _ => spelling ++ " " ++ o.target.toUpper

/-- The description of an option: its spellings, and what is said about it beside them or,
if they take too much room, below. -/
def OptionSpec.helpLines (o : OptionSpec) : List String :=
  let header := "  " ++ String.intercalate ", " (o.spellings.map o.withValue)
  let about := fillLines (pageWidth - aboutColumn) "" (o.about.splitOn " ")
  let below (lines : List String) : List String := lines.map fun l => blanks aboutColumn ++ l
  if o.about = "" then [header]
  else if header.length + 2 ≤ aboutColumn then match about with
    | first :: rest => (header ++ blanks (aboutColumn - header.length) ++ first) :: below rest
    | [] => [header]
  else header :: below about

/-- The **description of a command**: a summary, what the command does, and its options. -/
def helpLines (program about : String) (specs : List OptionSpec) : List String :=
  let start := "usage: " ++ program
  let parts := specs.map fun o => "[" ++ o.withValue (o.spellings.headD "") ++ "]"
  let room := pageWidth - (start.length + 1)
  let summary := match fillLines room "" parts with
    | first :: rest =>
      (start ++ " " ++ first) :: rest.map fun l => blanks (start.length + 1) ++ l
    | [] => [start]
  summary ++ ["", about, "", "options:"] ++ specs.flatMap OptionSpec.helpLines

end CoEmbed
