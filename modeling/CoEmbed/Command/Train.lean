import CoEmbed.Command.Calendar
import CoEmbed.Command.Moment.Reading
import CoEmbed.Command.Console
import CoEmbed.Command.Csv
import CoEmbed.Command.Options

/-!
# Training from the Command Line

A log is read, cut off and trained on; the pairs that were held out say how good the
recommender has become, and the recommender is kept.

* `cutoffTime` — the time at which a log is cut off.
* `heldOutByUser`, `holders` — the items that are held out for each user.
* `Trial` — what a recommender is tried on once it has been trained.
* `trainOn` — a recommender trained on a log, and its metrics on the pairs held out.
* `train` — the whole command, with what it prints.
* `trainProgram` — the command with its options.

## Cut-off convention

A log is cut off at the beginning of the given day. Without one it is cut off right after
its latest interaction, which leaves nothing out.
-/

namespace CoEmbed

/-- The cut-off rank of the metrics. -/
def evaluationRank : Int := 10

/-- A cut-off **as it is shown**. -/
def cutoffText (cutoff : Int) : Except Fault String :=
  match timeText? cutoff with
  | some t => .ok (t ++ " (unix=" ++ toString cutoff ++ ")")
  | none => .error .farDate

/-- The items that are **held out for each user**. -/
def heldOutByUser (pairs : List (Key × Key)) : Table Key (List Key) := grouped pairs

section

variable {α : Type}

/-- A column of numbers, none of which is a text, a flag, or whole. -/
def isRealColumn (column : List (Setting α)) : Bool :=
  column.all fun v => v.isReal || v.isAbsent

/-- The users with the items that are held out for each of them. Where users are named by reals,
those **without a name** are not one and the same: each of their pairs stands for itself. -/
def holders (users : List (Setting α)) (pairs : List (Key × Key)) : List (Key × List Key) :=
  let apart := isRealColumn users
  let tagged := pairs.zipIdx.map fun e =>
    ((e.1.1, if apart && e.1.1 = .missing then e.2 else 0), e.1.2)
  (grouped tagged).entries.map fun e => (e.1.1, e.2)

/-- What a recommender is **tried on**: the tables of a log, and the users with the items that are
held out for each of them. -/
structure Trial where
  tables : Tables
  holders : List (Key × List Key)

/-- What a recommender is asked in its trial, and the items that are held out. -/
def Trial.queries (t : Trial) : List (Query × List Key) :=
  CoEmbed.queries t.tables.userItems t.holders evaluationRank

/-- What came of a training. -/
structure TrainingReport (α : Type) where
  recommender : Recommender α
  fitted : Fitted α
  metrics : TopK α

variable [Machine] [Numeral α]

/-- The settings of the command, which its options may replace. -/
def trainSettings : Settings α
  | .factor => .integer 64
  | .iterations => .integer 15
  | .minUsers => .integer 5
  | p => Settings.standard p

/-- The **later of two times**, both of them taken as they are. -/
def later (s t : Setting α) : Except Fault (Setting α) :=
  (s.under t).map fun isUnder => if isUnder then t else s

/-- The **latest** time of a column. -/
def latest (times : List (Setting α)) : Except Fault Int := do
  match times.filter fun t => !t.isAbsent with
  | [] => throw .badValue
  | t :: ts => (← ts.foldlM later t).whole

/-- The time at which a log is **cut off**. -/
def cutoffTime (day : Option String) (f : Frame α) : Except Fault Int :=
  match day with
  | none | some "" => do return (← latest (← f.column (.text "unixReviewTime"))) + 1
  | some day => readTime Machine.year day

/-- What the command **trains on**. -/
def trainingSelection (c : Config α) (cutoff : Int) : Selection α :=
  Recommender.selection c (.integer cutoff) (.text "reviewerID") (.text "asin")
    (.text "unixReviewTime")

/-- What the command **evaluates on**: once more the settings of the configuration, the columns
being the standard ones. -/
def evaluationSelection (c : Config α) (cutoff : Int) : Selection α :=
  { Selection.standard with
    minUsers := c.settings .minUsers
    cutoff := .integer cutoff
    share := c.settings .validationShare
    seed := c.settings .seed }

/-- The trial for which a selection **takes the tables from a log**. -/
def Trial.ofFrame (f : Frame α) (s : Selection α) : Except Fault Trial := do
  s.check
  let t ← Tables.ofFrame f s
  return ⟨t, CoEmbed.holders (← f.column s.userColumn) t.heldOut⟩

/-- Fits a recommender to a log, and **evaluates** it on the pairs that are held out. -/
def trainOn (c : Config α) (f : Frame α) (cutoff : Int) : Except Fault (TrainingReport α) := do
  let o := (Recommender.ofConfig c).fit f (trainingSelection c cutoff)
  match o.fault, o.state.fitted with
  | some e, _ => throw e
  | none, none => throw .notTrained
  | none, some fitted =>
    let trial ← Trial.ofFrame f (evaluationSelection c cutoff)
    let metrics ← o.state.evaluate trial.tables.userItems trial.holders (.rank evaluationRank)
    return ⟨o.state, fitted, metrics⟩

end

/-- A line across the page. -/
def ruler (c : Char) (width : Nat) : String := String.ofList (List.replicate width c)

/-- A name with blanks behind it, up to a width. -/
def rightPadded (width : Nat) (s : String) : String :=
  s ++ String.ofList (List.replicate (width - s.length) ' ')

/-- A number with so many places. -/
def placesText (places : Nat) (x : Float) : String := writeFloat (Binary.fixed places) x

/-- The lines that report the average losses of the sweeps. -/
def historyLines (history : List Float) : List String :=
  history.zipIdx.map fun e =>
    "        iteration " ++ blankPadded 2 (e.2 + 1) ++ "  average loss " ++ placesText 6 e.1

/-- The lines that report the metrics. -/
def metricLines (t : TopK Float) : List String :=
  let line (name text : String) := "      " ++ rightPadded 14 name ++ " " ++ text
  let at_ (name : String) := name ++ "@" ++ toString evaluationRank
  [line (at_ "precision") (placesText 4 t.meanPrecision),
   line (at_ "recall") (placesText 4 t.meanRecall),
   line (at_ "hit") (placesText 4 t.meanHit), line (at_ "ndcg") (placesText 4 t.meanNdcg),
   line "users" (Decimal.thousands t.users)]

variable {m : Type → Type} [Monad m] [Machine]

/-- Reads a file, which has to be there. -/
def readText (io : Console m) (path : String) : Command m String := do
  match ← io.read path with
  | none => throw (.fault .missingFile)
  | some text => return text

/-- Reads the log in a file. -/
def readLog (io : Console m) (path : String) : Command m (Frame Float) := do
  orStop (Frame.ofCsv (← readText io path))

/-- Keeps a recommender, and says where. -/
def keepRecommender (io : Console m) (r : Recommender Float) : Command m Unit := do
  let s ← io.store
  orStop (← io.keep recommenderName r)
  io.say (s.savedLine recommenderName)

/-- **Trains** a recommender on the log in a file, reports how good it has become, and keeps
it. -/
def train (io : Console m) (path : String) (day : Option String)
    (given : List (String × Setting Float)) : Command m (TrainingReport Float) := do
  io.say (ruler '=' 60)
  io.say "RecSystem: cofactor model training"
  io.say (ruler '=' 60)
  let c ← orStop do Config.ofSettings (← trainSettings.override given)
  let start ← io.clock
  io.say ("\n[1/5] Loading data from " ++ path ++ " ...")
  let f ← readLog io path
  io.say ("      " ++ Decimal.thousands f.size ++ " interactions loaded  (" ++ (← io.took start)
    ++ ")")
  let cutoff ← orStop (cutoffTime day f)
  io.say ("\n[2/5] Training cutoff: " ++ (← orStop (cutoffText cutoff)))
  let start ← io.clock
  io.say ("\n[3/5] Training cofactor  (factors=" ++ (c.settings .factor).shown ++ ", max_iters="
    ++ (c.settings .iterations).shown ++ ") ...")
  let report ← orStop (trainOn c f cutoff)
  io.say ("      " ++ Decimal.thousands report.fitted.users.length ++ " users × "
    ++ Decimal.thousands report.fitted.items.length ++ " items, "
    ++ toString report.recommender.iterations ++ " iteration(s)  (" ++ (← io.took start) ++ ")")
  for line in historyLines report.fitted.history do io.say line
  io.say ("\n[4/5] Evaluating top-" ++ toString evaluationRank ++ " on held-out pairs ...")
  for line in metricLines report.metrics do io.say line
  io.say "\n[5/5] Saving model artifact ..."
  keepRecommender io report.recommender
  io.say (ruler '=' 60)
  return report

/-- The option that asks for help. -/
def helpOption : OptionSpec :=
  ⟨["-h", "--help"], "help", .help, "show this help message and exit"⟩

/-- The option that names the directory of artifacts. -/
def modelsOption (about : String) : OptionSpec := ⟨["--models-dir"], "models_dir", .text, about⟩

/-- The options of the command. -/
def trainOptions : List OptionSpec :=
  [helpOption,
   ⟨["--data"], "data", .text,
     "Path to review CSV file (default: data/Home_and_Kitchen_filtered.csv)"⟩,
   ⟨["--cutoff"], "cutoff", .text, "Training cutoff date as YYYY-MM-DD. Defaults to all data."⟩,
   modelsOption "Directory to write model artifacts (default: models/).",
   ⟨["--factors"], "factor", .whole, ""⟩,
   ⟨["--max-iters"], "max_iters", .whole, ""⟩,
   ⟨["--lambda-gamma"], "lambda_gamma", .real, ""⟩,
   ⟨["--validation-metric"], "validation_metric", .choice ["auc", "objective"], ""⟩,
   ⟨["--update-global-bias"], "update_global_bias", .flag true, ""⟩,
   ⟨["--no-bias"], "use_bias", .flag false, ""⟩,
   ⟨["--disable-cvtest"], "convergence_check", .flag false, ""⟩,
   ⟨["--log-level"], "log_level", .text, ""⟩]

/-- The levels of detail that a log may be kept at. -/
def logLevels : List String :=
  ["CRITICAL", "FATAL", "ERROR", "WARN", "WARNING", "INFO", "DEBUG", "NOTSET"]

/-- The files that a command reads and writes unless it is told otherwise. -/
structure Defaults where
  data : String
  root : String

/-- Prints the description of a command. -/
def explain (io : Console m) (program about : String) (specs : List OptionSpec) :
    Command m Unit := do
  for line in helpLines program about specs do io.say line

/-- The **command with its options**, under the name that its description gives it. -/
def trainProgram (name : String) (at_ : String → Console m) (d : Defaults)
    (args : List String) : Command m Unit := do
  match readOptions trainOptions args with
  | .mistaken => throw (.exit 2)
  | .help =>
    explain (at_ (modelsDirectory d.root none)) name
      "Train the cofactor recommendation model." trainOptions
  | .options given =>
    let level := (lastText given "log_level").getD "INFO"
    if !logLevels.contains (Text.upperAscii level) then throw (.fault .badValue)
    let io := at_ (modelsDirectory d.root (lastText given "models_dir"))
    let settings := given.filter fun g => (Hyperparameter.ofName? g.1).isSome
    let _ ← train io ((lastText given "data").getD d.data) (lastText given "cutoff") settings

end CoEmbed
