import CoEmbed.Interactions
import CoEmbed.Model.Loss
import CoEmbed.Model.Sweep
import CoEmbed.Model.Validation
import CoEmbed.Ranking.CutOff
import CoEmbed.Sppmi
import CoEmbed.StopRule

/-!
# The Recommender

A recommender is fitted to tables of interactions and from then on answers which items a
user might want next.

* `Training` — what a model is trained on.
* `Run` — a model in training; `Run.step` is one sweep over users and items with the
  validation after it, `Run.loop` goes on until the rule says stop.
* `Fitted` — the outcome of a run that went through.
* `Recommender.fitTables`, `Recommender.fit` — fit a recommender.
* `Fitted.masked` — all items with their scores, those of a history masked.
* `Fitted.recommend` — the items with the highest scores, as many as are not masked at most.

## Failure convention

A fit that fails leaves the fitted model as it was. The counters and the number of sweeps
are those of the failed run, as far as it got; a run whose model could not be built leaves
them alone too.

## Masking convention

A masked item has no score of its own: it counts as negative infinity, which is below all other
scores but may be the score of an item that is not masked as well.
-/

namespace CoEmbed

variable {ρ α : Type}

/-- What a model is **trained on**: the rows of users and of items, the weighted neighbours,
and the pairs that are held out. -/
structure Training (α : Type) where
  userItems : Table Key (List Key)
  itemUsers : Table Key (List Key)
  rows : Table Key (Row α)
  heldOut : List (Key × Key)

/-- The number of pairs of an item and a user. -/
def Training.size (t : Training α) : Nat := t.itemUsers.values.flatten.length

/-- The samples of all users and items. -/
def Training.samples [One α] (t : Training α) : List (Sample α) :=
  userSamples t.userItems ++ itemSamples t.itemUsers t.rows

/-- A model **in training**: its losses so far, and the number of sweeps completed. -/
structure Run (α : Type) (n : Nat) where
  model : Model α n
  progress : Progress α
  completed : Nat

namespace Run

variable [Machine] [Scalar α] [One ρ] [Operand ρ α] {n : Nat}

/-- A model that has not been swept. -/
def start (m : Model α n) : Run α n := ⟨m, .start, 0⟩

/-- A step on the model alone. -/
def onModel (r : Run α n) (f : Model α n → Outcome (Model α n)) : Outcome (Run α n) :=
  let o := f r.model
  ⟨{ r with model := o.state }, o.fault⟩

/-- Reports a loss. -/
def report (r : Run α n) (loss : α) : Outcome (Run α n) :=
  match r.progress.report loss with
  | .ok p => .done { r with progress := p }
  | .error f => .failed r f

/-- **Validates** one held-out pair, and counts it if it can be scored. -/
def validatePair (s : Run α n × Nat) (pair : Key × Key) : Outcome (Run α n × Nat) :=
  let (loss, source) := s.1.model.validate pair.1 pair.2
  let r := { s.1 with model := { s.1.model with source := source } }
  match loss with
  | .error f => .failed (r, s.2) f
  | .ok none => .done (r, s.2)
  | .ok (some loss) =>
    let o := r.report loss
    ⟨(o.state, s.2 + 1), o.fault⟩

/-- Reports the losses of the pairs that are held out; if none of them can be scored, the
loss on the training data. The number is that of the losses' instances. -/
def validate (t : Training ρ) (r : Run α n) : Outcome (Run α n × Nat) :=
  (Outcome.each validatePair (r, 0) t.heldOut).bind fun s =>
    if s.2 ≠ 0 then .done s
    else match s.1.model.loss t.samples with
      | .error f => .failed s f
      | .ok loss =>
        let o := s.1.report loss
        ⟨(o.state, t.size), o.fault⟩

/-- One **sweep over users and items**, the validation after it, and the verdict whether to
go on. -/
def step (t : Training ρ) (rule : StopRule α) (r : Run α n) : Outcome (Run α n × Bool) :=
  let r := { r with progress := r.progress.next }
  let o := ((r.onModel fun m => m.updateUsers t.userItems).bind fun r =>
    r.onModel fun m => m.updateItems t.itemUsers t.rows)
  match o.fault with
  | some f => .failed (o.state, false) f
  | none =>
    let v := validate t o.state
    match v.fault with
    | some f => .failed (v.state.1, false) f
    | none =>
      let judged := v.state.1.progress.judge rule v.state.2
      .done ({ v.state.1 with progress := judged.1, completed := r.completed + 1 }, judged.2)

/-- At most so many sweeps, **until the rule says stop** or one of them fails. -/
def loop (t : Training ρ) (rule : StopRule α) : Nat → Run α n → Outcome (Run α n)
  | 0, r => .done r
  | left + 1, r =>
    let o := step t rule r
    match o.fault with
    | some f => .failed o.state.1 f
    | none => if o.state.2 then .done o.state.1 else loop t rule left o.state.1

end Run

/-- The outcome of a **run that went through**: its model, and the average loss of each
sweep. -/
structure Fitted (α : Type) where
  factor : Nat
  model : Model α factor
  history : List α

namespace Fitted

variable [Scalar α]

/-- The users, in order of registration. -/
def users (f : Fitted α) : List Key := f.model.theta.keys

/-- The items, in order of registration. -/
def items (f : Fitted α) : List Key := f.model.beta.keys

/-- The **place of each user** in the list of users. -/
def userPlaces (f : Fitted α) : Table Key Nat := Table.ofList f.users.zipIdx

/-- The **place of each item** in the list of items. -/
def itemPlaces (f : Fitted α) : Table Key Nat := Table.ofList f.items.zipIdx

/-- The vectors of the users, **row by row** in the order of their list. -/
def userFactors (f : Fitted α) : List (Vec α f.factor) := f.users.filterMap f.model.theta.get?

/-- The vectors of the items, **row by row** in the order of their list. -/
def itemFactors (f : Fitted α) : List (Vec α f.factor) := f.items.filterMap f.model.beta.get?

/-- The known members of a history, a repeated one **as often as it is listed**. -/
def familiar (f : Fitted α) (history : List Key) : List Key :=
  history.filter fun k => decide (k ∈ f.model.beta)

/-- The vectors of those items of a list that are known, a repeated one as often as it is
listed. -/
def known (f : Fitted α) (history : List Key) : List (Vec α f.factor) :=
  history.filterMap f.model.beta.get?

/-- The mean of some vectors. -/
def meanVector {n : Nat} (vs : List (Vec α n)) : Vec α n :=
  Vec.divide (vs.foldl Vec.add Vec.zero) (Scalar.ofNat vs.length)

/-- The vector that a user is scored with: the user's own, or the **mean of the history** of
a user who is not known. -/
def profile (f : Fitted α) (user : Key) (history : List Key) : Option (Vec α f.factor) :=
  match f.model.theta.get? user with
  | some v => some v
  | none => match f.known history with
    | [] => none
    | vs => some (meanVector vs)

/-- **All items** with their scores; those of a history are masked, and have none. -/
def masked (f : Fitted α) (profile : Vec α f.factor) (history : List Key) :
    List (Key × Option α) :=
  f.model.beta.entries.map fun e =>
    (e.1, if e.1 ∈ history then none else some (Vec.dot e.2 profile))

/-- The number of items that are **not masked**. -/
def available (f : Fitted α) (history : List Key) : Nat :=
  f.items.length - (distinct (f.familiar history)).length

/-- The order of scores: one that is not a number comes after all others. -/
def precedes (a b : α) : Bool :=
  Scalar.lt a b ||
    (Scalar.exceptional? a != some .notANumber && Scalar.exceptional? b == some .notANumber)

/-- The order of scores where some are masked: **what is masked is negative infinity**. -/
def precedesMasked : Option α → Option α → Bool
  | none, none => false
  | none, some b => Scalar.exceptional? b != some .negativeInfinity
  | some _, none => false
  | some a, some b => precedes a b

/-- Items with their scores, the **highest first**; of equal scores the later item goes
first. -/
def ranked (xs : List (Key × Option α)) : List (Key × Option α) :=
  (xs.mergeSort fun a b => !precedesMasked b.2 a.2).reverse

/-- The items with the **highest scores**, a history being masked, for a user or for the history
of a user who is not known. There are no more of them than items that are not masked. -/
def recommend (f : Fitted α) (user : Key) (history : List Key) (count : Int) : List Key :=
  match f.profile user history with
  | none => []
  | some v =>
    ((ranked (f.masked v history)).take (min count (f.available history)).toNat).map Prod.fst

end Fitted

/-- A **recommender**: its configuration, the model it serves, and the counters and the
number of sweeps of its last run. -/
structure Recommender (α : Type) where
  config : Config α
  fitted : Option (Fitted α)
  counters : Counters
  iterations : Nat

namespace Recommender

/-- A recommender that has not been fitted. -/
def ofConfig (c : Config α) : Recommender α := ⟨c, none, Table.empty, 0⟩

/-- The **average losses** of the run that the recommender serves; there are none before one has
gone through. -/
def losses (r : Recommender α) : List α :=
  match r.fitted with
  | none => []
  | some f => f.history

variable [Machine] [Numeral α]

/-- The empty model of a configuration. -/
def newModel (c : Config α) : Except Fault ((n : Nat) × Model α n) := do
  let source ← Source.ofSeed (← (c.settings .seed).count)
  Model.ofSettings c.settings (some c.init) source

/-- What a run leaves of its counters and its number of sweeps. -/
def noting {n : Nat} (r : Recommender α) (run : Run α n) : Recommender α :=
  { r with
    counters := run.model.counters
    iterations := if run.completed = 0 then r.iterations else run.completed }

/-- Registers everything that a model is trained on. -/
def registered {n : Nat} (t : Training ρ) (m : Model α n) : Outcome (Model α n) :=
  ((m.withCounters .complete).registerHistories t.userItems).bind fun m =>
    m.registerItems t.itemUsers.keys

/-- The stop rule and the greatest number of sweeps of a configuration. -/
def schedule (c : Config α) : Except Fault (StopRule α × Nat) := do
  let rule ← StopRule.ofSettings (c.settings .checkConvergence) (c.settings .convergenceRate)
  return (rule, (← (c.settings .iterations).count).toNat)

/-- Trains a model and notes what came of it. -/
def train {n : Nat} [One ρ] [Operand ρ α] (r : Recommender α) (t : Training ρ) (m : Model α n) :
    Outcome (Recommender α) :=
  let o := registered t m
  let run := Run.start o.state
  match o.fault with
  | some f => .failed (r.noting run) f
  | none => match schedule r.config with
    | .error f => .failed (r.noting run) f
    | .ok (rule, most) =>
      let o := Run.loop t rule most run
      match o.fault with
      | some f => .failed (r.noting o.state) f
      | none =>
        .done { r.noting o.state with
          fitted := some ⟨n, o.state.model, o.state.progress.history⟩ }

/-- **Fits a recommender** to tables of interactions. -/
def fitTables [One ρ] [Operand ρ α] (r : Recommender α) (t : Training ρ) : Outcome (Recommender α) :=
  match newModel r.config with
  | .error f => .failed r f
  | .ok ⟨_, m⟩ => r.train t m

/-- What a configuration takes from a log. -/
def selection (c : Config α) (cutoff userColumn itemColumn timeColumn : Setting α) :
    Selection α :=
  ⟨c.settings .minUsers, cutoff, c.settings .validationShare, c.settings .seed, userColumn,
   itemColumn, timeColumn⟩

/-- What a selection takes from a log, with the weighted neighbours that follow from it. -/
def trainingOf (f : Frame α) (s : Selection α) (shift : Setting α) :
    Except Fault (Training α) := do
  s.check
  let t ← Tables.ofFrame f s
  return ⟨t.userItems, t.itemUsers, ← sppmiRows t.matrix t.items shift, t.heldOut⟩

/-- **Fits a recommender** to a log. -/
def fit (r : Recommender α) (f : Frame α) (s : Selection α) : Outcome (Recommender α) :=
  match trainingOf f s (r.config.settings .shift) with
  | .error e => .failed r e
  | .ok t => r.fitTables t

/-- The number of suggestions that a setting **asks for**, where a number of them is there. A
fraction is never the length of a list: it may only ask for more than there are, or for
none. -/
def asked (available : Nat) : Setting α → Except Fault Int
  | .real x =>
    if Scalar.lt (Scalar.ofNat available) x then .ok available
    else if Scalar.le x 0 then .ok 0
    else .error .badType
  | s => s.count

/-- The items that a fitted recommender **suggests**. Nobody asks how many, where there is
nothing to score them with. -/
def recommend (r : Recommender α) (user : Key) (history : List Key) (count : Setting α) :
    Except Fault (List Key) :=
  match r.fitted with
  | none => .error .notTrained
  | some f => match f.profile user history with
    | none => .ok []
    | some _ => do return f.recommend user history (← asked (f.available history) count)

/-- The mean metrics of what a recommender suggests. -/
def evaluate (r : Recommender α) (histories : Table Key (List Key))
    (heldOut : List (Key × List Key)) (c : CutOff) : Except Fault (TopK α) :=
  c.evaluate (fun q => r.recommend q.user q.history (.integer q.count)) histories heldOut

end Recommender

end CoEmbed
