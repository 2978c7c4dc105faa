import CoEmbed.Machine
import CoEmbed.Setting

/-!
# Initial Vectors

A vector starts out random: evenly spread over an interval around zero, or gathered around
zero with a given spread.

* `VectorInit` — how initial vectors are drawn.
* `VectorInit.Options` — the numbers of a scheme as they were given.
* `VectorInit.ofOptions`, `VectorInit.ofKind`, `VectorInit.ofName` — the scheme that the
  given values name, once they have been checked.
* `VectorInit.draw` — a vector, and the source after it.

## Spread convention

The spread of a gathered vector is the larger of the given spread and a floor, so a floor
that grows as the number of factors shrinks keeps short vectors from starting at zero.
-/

namespace CoEmbed

/-- The two **families** of initial vectors. -/
inductive VectorInit.Kind where
  | random
  | gaussian
  deriving DecidableEq, Repr

/-- How **initial vectors** are drawn. -/
structure VectorInit (α : Type) where
  kind : VectorInit.Kind
  bound : α
  stddev : α
  floor : α

namespace VectorInit

/-- The proper name of a family. -/
def Kind.name : Kind → String
  | .random => "random"
  | .gaussian => "gaussian"

/-- The family with a proper name. -/
def Kind.ofName? (s : String) : Option Kind :=
  if s = "random" then some .random else if s = "gaussian" then some .gaussian else none

/-- The family with a name, proper or not, in any case and with blanks around it. -/
def Kind.ofAlias? (s : String) : Option Kind :=
  match Text.lowerAscii (Text.trim s) with
  | "random" | "uniform" => some .random
  | "gaussian" | "normal" => some .gaussian
  | _ => none

variable {α : Type}

section

variable [Scalar α]

/-- The **spread** of a gathered vector. -/
def spread (init : VectorInit α) : α := Scalar.max init.stddev init.floor

/-- The length of the interval of an evenly spread vector. -/
def span (init : VectorInit α) : α := init.bound - -init.bound

/-- Whether the scheme can be drawn from: an interval has to be of finite length. -/
def drawable (init : VectorInit α) : Bool :=
  match init.kind with
  | .random => Scalar.finite init.span
  | .gaussian => true

/-- **Draws a vector** with `n` coordinates. -/
def draw [Machine] (init : VectorInit α) (n : Nat) (s : Source) : Vec α n × Source :=
  match init.kind with
  | .random => (Vector.ofFn fun i => -init.bound + init.span * s.unit i, s.advance n)
  | .gaussian =>
    let bells := Machine.bells n s
    (bells.1.map fun x => init.spread * x, bells.2)

end

/-- The numbers of a scheme **as they were given**. -/
structure Options (α : Type) where
  bound : Setting α
  stddev : Setting α
  floor : Setting α

variable [Numeral α]

/-- What is taken for the numbers that are not given. -/
def Options.standard : Options α := ⟨.real 1, .real (Scalar.ratio 1 100), .real 0⟩

/-- The options with one of them, named, replaced. -/
def Options.set? (o : Options α) (name : String) (v : Setting α) : Option (Options α) :=
  match name with
  | "max_init_value" => some { o with bound := v }
  | "init_stddev" => some { o with stddev := v }
  | "stddev_floor" => some { o with floor := v }
  | _ => none

/-- The scheme of a family with the given numbers. -/
def ofOptions (kind : Kind) (o : Options α) : Except Fault (VectorInit α) := do
  refuseIf (← o.bound.atMost 0) (.initialBound o.bound.shown)
  refuseIf (← o.stddev.below 0) .initialSpread
  refuseIf (← o.floor.below 0) .initialSpread
  return ⟨kind, ← o.bound.scalar, ← o.stddev.scalar, ← o.floor.scalar⟩

/-- The scheme of the family with a proper name. -/
def ofKind (name : Setting α) (o : Options α) : Except Fault (VectorInit α) :=
  let kind := match name with
    | .text s => Kind.ofName? s
    | _ => none
  match kind with
  | some kind => ofOptions kind o
  | none => .error (.refused (.initialisationKind name.quoted))

/-- The family that an option names. -/
def kindNamed (name : Setting α) : Except Fault Kind :=
  match Kind.ofAlias? name.shown with
  | some kind => .ok kind
  | none => .error (.refused (.initialisation name.quoted))

/-- The scheme that an option names. -/
def ofName (name : Setting α) (o : Options α) : Except Fault (VectorInit α) := do
  ofOptions (← kindNamed name) o

/-- How a scheme is written. -/
def text (init : VectorInit α) : String :=
  match init.kind with
  | .random => "RankInitScheme('random', max_init_value=" ++ Numeral.text init.bound ++ ")"
  | .gaussian => "RankInitScheme('gaussian', stddev=" ++ Numeral.text init.spread ++ ")"

end VectorInit

end CoEmbed
