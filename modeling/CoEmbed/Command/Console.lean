import CoEmbed.Machine.Standard
import CoEmbed.Recommender
import CoEmbed.Store

/-!
# The Console

A command reads files, prints lines, and keeps artifacts. It is written once, for any place
that can do these things.

* `Stop` — why a command ended before its end.
* `Console` — a place where commands run.
* `Desk`, `deskConsole` — such a place on paper: the files are given, the lines are
  collected, and the store is a value.

## Machine convention

A command runs on the standard machine where no other one is given.
-/

namespace CoEmbed

/-- Why a command **ended early**. -/
inductive Stop where
  | fault (f : Fault)
  | exit (code : Nat)
  deriving Repr

/-- The code that a command ends with. -/
def Stop.code : Stop → Nat
  | .fault _ => 1
  | .exit code => code

/-- A place **where commands run**: it prints lines, reads files, measures how long
something took, and has a store. -/
structure Console (m : Type → Type) where
  say : String → m Unit
  read : String → m (Option String)
  clock : m Nat
  took : Nat → m String
  store : m (Store (Recommender Float))
  keep : String → Recommender Float → m (Except Fault Unit)

/-- A **command** that may end early. -/
abbrev Command (m : Type → Type) := ExceptT Stop m

/-- A fault ends a command. -/
def orStop {m : Type → Type} [Monad m] {β : Type} : Except Fault β → Command m β
  | .ok x => pure x
  | .error f => throw (.fault f)

/-- The type of a fitted recommender in a store. -/
def recommenderType : String := "CofactorRecommender"

/-- The name under which the recommender is kept. -/
def recommenderName : String := "cofactor"

/-- A place **on paper**: the lines printed so far, the texts of the files that are there,
and the store. -/
structure Desk where
  lines : List String
  texts : List (String × String)
  store : Store (Recommender Float)

/-- The console of a desk, on which everything takes the same time. -/
def deskConsole (duration : String) : Console (StateM Desk) where
  say line := modify fun d => { d with lines := d.lines ++ line.splitOn "\n" }
  read path := do return (← get).texts.lookup path
  clock := pure 0
  took _ := pure duration
  store := do return (← get).store
  keep name r := do
    match (← get).store.save name r with
    | .ok s => modify fun d => { d with store := s }; return .ok ()
    | .error f => return .error f

/-- What came of a command on a desk. -/
def Desk.run {β : Type} (d : Desk) (c : Command (StateM Desk) β) : Except Stop β × Desk :=
  StateT.run (ExceptT.run c) d

end CoEmbed
