import CoEmbed.Command.Train

/-!
# Recommending from the Command Line

The recommender that was kept is loaded once and says what one user might want next.

* `loadRecommender` — the recommender in the store.
* `historyOf`, `demoUser` — the items of a user in a log, and a user to show it with.
* `serve` — the whole command, with what it prints.
* `serveProgram` — the command with its options.

## Choice convention

Without a user of its own the command takes the first, in the order of the users' names, who
has enough interactions in the log.
-/

namespace CoEmbed

/-- The number of interactions that a user has to have to be shown. -/
def demoInteractions : Setting Float := .integer 5

/-- The pairs of user and item in the text of a log. -/
def logPairs (text : String) : Except Fault (List (Key × Key)) := do
  let f ← Frame.ofCsvColumns ["reviewerID", "asin"] text
  let users ← f.column (.text "reviewerID")
  let items ← f.column (.text "asin")
  return (users.map Setting.key).zip (items.map Setting.key)

/-- The items of a **user** in a log. -/
def historyOf (log : List (Key × Key)) (user : Key) : List Key :=
  (log.filter fun p => p.1 = user).map Prod.snd

/-- The number that a key is sorted by, if it is one. -/
def Key.rank? : Key → Option Float
  | .number n => some (Float.ofInt n)
  | .decimal t => Numeral.ofText? t
  | .flag b => some (if b then 1.0 else 0.0)
  | .text _ | .missing => none

/-- The order of users' names: **numbers by size, then texts by their characters**. Whole numbers
are compared exactly. -/
def Key.precedes : Key → Key → Bool
  | .number m, .number n => decide (m ≤ n)
  | .text s, .text t => decide (s ≤ t)
  | a, b => match a.rank?, b.rank? with
    | some x, some y => decide (x ≤ y)
    | some _, none => true
    | none, some _ => false
    | none, none => a ≠ .missing || b = .missing

/-- The **first user** with enough interactions, and the items of that user. -/
def demoUser (log : List (Key × Key)) (least : Setting Float) :
    Except Fault (Key × List Key) := do
  let users := (distinct (log.map Prod.fst)).filter fun u => u ≠ .missing
  let least ← least.number
  let enough (u : Key) : Bool := Scalar.le least (Scalar.ofNat (historyOf log u).length)
  match (users.mergeSort Key.precedes).find? enough with
  | some u => return (u, historyOf log u)
  | none => throw .noDemoUser

variable {m : Type → Type} [Monad m]

/-- The **recommender in the store**. -/
def loadRecommender (io : Console m) : Command m (Recommender Float) := do
  let s ← io.store
  if !s.names.contains recommenderName then throw (.fault .noSavedModel)
  let r ← orStop (s.load (fun _ => recommenderType) recommenderType recommenderName)
  io.say (s.loadedLine recommenderName)
  return r

/-- Reads the pairs of user and item in the log of a file. -/
def readPairs (io : Console m) (path : String) : Command m (List (Key × Key)) := do
  orStop (logPairs (← readText io path))

/-- The user that the command answers for, with the items that the log has for that user. -/
def chooseUser (io : Console m) (path : String) (user : Option String) :
    Command m (Key × List Key) := do
  match user with
  | none | some "" =>
    io.say "No --user specified; picking a demo user from the data ..."
    let log ← readPairs io path
    orStop (demoUser log demoInteractions)
  | some name =>
    let log ← readPairs io path
    let history := historyOf log (.text name)
    if history.isEmpty then
      io.say ("User '" ++ name ++ "' not found in data or has no interactions.")
      throw (.exit 1)
    return (.text name, history)

/-- Loads the recommender and prints what it **suggests**. -/
def serve (io : Console m) (path : String) (user : Option String) (count : Int) :
    Command m Unit := do
  io.say "Loading cofactor model from disk ..."
  let r ← loadRecommender io
  let (user, history) ← chooseUser io path user
  let fitted ← match r.fitted with
    | some f => pure f
    | none => throw (.fault .badType)
  let known := if user ∈ fitted.model.theta then "known" else "cold-start"
  io.say ("User:    " ++ user.plain ++ " (" ++ known ++ ")")
  io.say ("History: " ++ toString history.length ++ " interactions\n")
  io.say ("Top-" ++ toString count ++ " cofactor recommendations:")
  io.say (ruler '-' 50)
  for e in (fitted.recommend user history count).zipIdx do
    io.say ("  " ++ blankPadded 2 (e.2 + 1) ++ ". " ++ e.1.plain)

/-- The options of the command. -/
def serveOptions : List OptionSpec :=
  [helpOption,
   ⟨["--user"], "user", .text, "User ID to generate recommendations for."⟩,
   ⟨["--top-n"], "top_n", .whole, ""⟩,
   modelsOption ""]

/-- The number that an option was given last. -/
def lastCount (given : List (String × Setting Float)) (target : String) (d : Int) : Int :=
  match lastGiven given target with
  | some (.integer n) => n
  | _ => d

/-- The **command with its options**, under the name that its description gives it. -/
def serveProgram (name : String) (at_ : String → Console m) (d : Defaults)
    (args : List String) : Command m Unit := do
  match readOptions serveOptions args with
  | .mistaken => throw (.exit 2)
  | .help =>
    explain (at_ (modelsDirectory d.root none)) name
      "Run per-user inference with the cofactor model." serveOptions
  | .options given =>
    let io := at_ (modelsDirectory d.root (lastText given "models_dir"))
    serve io d.data (lastText given "user") (lastCount given "top_n" 10)

end CoEmbed
