import CoEmbed.Key
import CoEmbed.Scalar

/-!
# Faults

Everything that can go wrong is one of the causes below. A cause carries what its message
shows and nothing else.

* `Refusal` — a hyperparameter out of its range.
* `SystemDefect` — a linear system without a usable factorisation.
* `LossDefect` — a loss or a score that is not finite.
* `Fault` — all of these, and the causes that belong to one operation.
* `Fault.message` — the wording of a cause.
* `Fault.kind` — the family a cause belongs to.

## Silence convention

A cause that the caller has to know by its kind alone has no message: `Fault.message` is
`none` exactly for the causes that stand for an operand of the wrong value or type, a key or
an index that is not there, an overflow or a lack of memory, a file that is not there or
cannot be used, a log without a table in it, and a date that is unreadable or out of range.
-/

namespace CoEmbed

/-- A hyperparameter **out of its range**. The texts are the refused values as they were
given. -/
inductive Refusal where
  | factor (given : String)
  | iterations (given : String)
  | validationShare
  | globalBiasWithoutBiases
  | confidences
  | ridges
  | negatives (given : String)
  | shift (given : String)
  | metric (given : String)
  | initialisation (quoted : String)
  | initialisationKind (quoted : String)
  | initialBound (given : String)
  | initialSpread
  | modelFactor (given : String)
  | modelConfidences (unobserved observed : String)
  | modelGlobalBias
  | modelNegatives (given : String)
  | splitShare (given : String)
  | rowShift (given : String)
  | rate (given : String)
  deriving DecidableEq, Repr

/-- The wording of a refusal. -/
def Refusal.message : Refusal → String
  | .factor v => "'factor' must be positive: " ++ v
  | .iterations v => "'max_iters' must be greater than or equal to 1: " ++ v
  | .validationShare => "'validation_ratio' must be between 0.0 and 1.0"
  | .globalBiasWithoutBiases => "Cannot set both 'update_global_bias' and 'no_bias'"
  | .confidences => "'c0' and 'c1' must be non-negative"
  | .ridges => "Regularization factors must be non-negative"
  | .negatives v => "'num_valid_per_record' must be >= 1: " ++ v
  | .shift v => "'sppmi_shift' must be positive: " ++ v
  | .metric v => v ++ " is not a supported validation metric."
  | .initialisation q => q ++ " is not a supported rank init scheme"
  | .initialisationKind q => "Unsupported rank init scheme: " ++ q
  | .initialBound v => "max_init_value must be positive: " ++ v
  | .initialSpread => "Initial standard deviation must be non-negative"
  | .modelFactor v => "factor must be positive: " ++ v
  | .modelConfidences c₀ c₁ => "c0 and c1 must be non-negative: c0=" ++ c₀ ++ ", c1=" ++ c₁
  | .modelGlobalBias => "Cannot update the global bias when biases are disabled"
  | .modelNegatives v => "num_valid_per_record must be >= 1 for AUC validation: " ++ v
  | .splitShare v => "validation_ratio must be between 0.0 and 1.0: " ++ v
  | .rowShift v => "SPPMI shift must be positive: " ++ v
  | .rate v => "convergence_rate must be >= 0: " ++ v

/-- Why a linear system has **no usable factorisation**; the places of pivots are counted
from one. -/
inductive SystemDefect where
  | nonFinite
  | notPositiveDefinite (pivot : Nat)
  deriving DecidableEq, Repr

/-- The wording of a system's defect. -/
def SystemDefect.message : SystemDefect → String
  | .nonFinite => "Linear system contains non-finite values"
  | .notPositiveDefinite k =>
    "System matrix is not positive-definite: " ++ toString k
      ++ "-th leading minor of the array is not positive definite"

/-- A loss or a score that is **not finite**, with the place where it turned up. -/
inductive LossDefect where
  | sweep (iteration : Nat) (value : Exceptional)
  | objective (value : Exceptional)
  | score (user item : Key) (value : Exceptional)
  | negativeScores (user : Key)
  | validation (user item : Key)
  deriving DecidableEq, Repr

/-- The wording of a loss's defect. -/
def LossDefect.message : LossDefect → String
  | .sweep n v => "Non-finite loss at iteration " ++ toString n ++ ": " ++ v.text
  | .objective v => "Non-finite training loss: " ++ v.text
  | .score u i v =>
    "Non-finite score for (" ++ u.quoted ++ ", " ++ i.quoted ++ "): " ++ v.text
  | .negativeScores u => "Non-finite negative scores for " ++ u.quoted
  | .validation u i =>
    "Non-finite validation loss for (" ++ u.quoted ++ ", " ++ i.quoted ++ ")"

/-- The shape of an array in a message. -/
def shapeText : List Nat → String
  | [n] => "(" ++ toString n ++ ",)"
  | ns => "(" ++ String.intercalate ", " (ns.map fun n => toString n) ++ ")"

/-- A **cause of failure**. -/
inductive Fault where
  | refused (r : Refusal)
  | system (d : SystemDefect)
  | loss (d : LossDefect)
  | foreignRecord (typeName : String)
  | shapes (left right : List Nat)
  | vectorRank (key : Key) (shape : List Nat)
  | vectorLength (key : Key) (got : Nat) (expected : String)
  | notTrained
  | tablesNotBuilt
  | noDemoUser
  | noSavedModel
  | noArtifact (name path : String)
  | wrongArtifact (name held expected : String)
  | badValue
  | badType
  | badOperand
  | missingKey
  | outOfRange
  | overflow
  | noMemory
  | missingFile
  | unusablePath
  | notDirectory
  | isDirectory
  | emptyFile
  | emptyLog
  | brokenLog
  | badDate
  | farDate
  deriving DecidableEq, Repr

namespace Fault

/-- The **wording** of a cause, if it has one. -/
def message : Fault → Option String
  | .refused r => some r.message
  | .system d => some d.message
  | .loss d => some d.message
  | .foreignRecord t => some ("Unsupported training record: " ++ t)
  | .shapes l r => some ("Shape mismatch: " ++ shapeText l ++ " vs " ++ shapeText r)
  | .vectorRank k s =>
    some ("Weight vector for " ++ k.quoted ++ " must be 1-D, got shape " ++ shapeText s)
  | .vectorLength k n m =>
    some ("Weight vector for " ++ k.quoted ++ " has " ++ toString n ++ " entries, expected " ++ m)
  | .notTrained => some "Model is not trained. Call .fit() first."
  | .tablesNotBuilt => some "Tables are not built. Call .build() first."
  | .noDemoUser => some "No users with enough interactions found in the data."
  | .noSavedModel =>
    some "No saved cofactor model found in models/.  Run scripts/train_cofactor.py first."
  | .noArtifact n p =>
    some ("No saved artifact for '" ++ n ++ "' at " ++ p ++ ". Run scripts/train_cofactor.py first.")
  | .wrongArtifact n h e =>
    some ("Artifact '" ++ n ++ "' holds a " ++ h ++ ", expected " ++ e)
  | .badValue | .badType | .badOperand | .missingKey | .outOfRange | .overflow | .noMemory
  | .missingFile | .unusablePath | .notDirectory | .isDirectory | .emptyFile | .emptyLog | .brokenLog
  | .badDate | .farDate => none

/-- The families of causes. -/
inductive Kind where
  | configuration
  | system
  | loss
  | value
  | type
  | operand
  | key
  | index
  | overflow
  | memory
  | file
  | path
  | notDirectory
  | isDirectory
  | emptyFile
  | emptyLog
  | brokenLog
  | state
  | date
  | farDate
  deriving DecidableEq, Repr

/-- The **family** of a cause. -/
def kind : Fault → Kind
  | .refused _ => .configuration
  | .system _ => .system
  | .loss _ => .loss
  | .foreignRecord _ | .wrongArtifact _ _ _ | .badType => .type
  | .shapes _ _ | .vectorRank _ _ | .vectorLength _ _ _ | .notTrained | .tablesNotBuilt
  | .noDemoUser | .badValue => .value
  | .noSavedModel => .state
  | .noArtifact _ _ | .missingFile => .file
  | .missingKey => .key
  | .outOfRange => .index
  | .overflow => .overflow
  | .badOperand => .operand
  | .noMemory => .memory
  | .unusablePath => .path
  | .notDirectory => .notDirectory
  | .isDirectory => .isDirectory
  | .emptyFile => .emptyFile
  | .emptyLog => .emptyLog
  | .brokenLog => .brokenLog
  | .badDate => .date
  | .farDate => .farDate

end Fault

end CoEmbed
