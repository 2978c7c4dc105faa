import CoEmbed.Archive.Recommender
import CoEmbed.Command.Serve

/-!
# The Program

`train` fits a recommender to a log and keeps it, `recommend` says what a user might want
next. Everything that is decided here is where lines, files and the clock are.
-/

namespace CoEmbed

/-- The text of a file, if it can be read. -/
def fileText? (path : String) : IO (Option String) := do
  try return some (← IO.FS.readFile path) catch _ => return none

/-- A number of milliseconds in seconds, with one place. -/
def secondsText (milliseconds : Nat) : String :=
  let tenths := (milliseconds + 50) / 100
  toString (tenths / 10) ++ "." ++ toString (tenths % 10) ++ "s"

/-- The store in a directory, as far as the commands look at it. -/
def storeIn (dir : String) : IO (Store (Recommender Float)) := do
  match ← fileText? (artifactPath dir recommenderName) with
  | none => return .empty dir
  | some text => match Recommender.ofFileText? text with
    | none => return .empty dir
    | some r => match (Store.empty dir).save recommenderName r with
      | .ok s => return s
      | .error _ => return .empty dir

/-- Writes a recommender to the file of its name. -/
def keepIn (dir name : String) (r : Recommender Float) : IO (Except Fault Unit) := do
  try
    IO.FS.createDirAll dir
    IO.FS.writeFile (artifactPath dir name) r.fileText
    return .ok ()
  catch _ => return .error .missingFile

/-- The terminal, with artifacts in a directory. -/
def terminal (dir : String) : Console IO where
  say line := IO.println line
  read := fileText?
  clock := IO.monoMsNow
  took start := return secondsText ((← IO.monoMsNow) - start)
  store := storeIn dir
  keep := keepIn dir

/-- Where the program looks for files unless it is told otherwise. -/
def surroundings : Defaults := ⟨"data/Home_and_Kitchen_filtered.csv", "."⟩

/-- Runs a command; what stops it is said on the error stream. -/
def finish (command : Command IO Unit) : IO UInt32 := do
  match ← ExceptT.run command with
  | .ok () => return 0
  | .error stop =>
    match stop with
    | .fault f => IO.eprintln (f.message.getD "The command could not be completed.")
    | .exit _ => pure ()
    return UInt32.ofNat stop.code

/-- The command that the first word of a command line names, with the words after it. -/
def dispatch (args : List String) : IO UInt32 :=
  match args with
  | "train" :: rest => finish (trainProgram "coembed train" terminal surroundings rest)
  | "recommend" :: rest => finish (serveProgram "coembed recommend" terminal surroundings rest)
  | _ => do
    IO.eprintln "usage: coembed (train | recommend) [options]"
    return 2

end CoEmbed

/-- The **program**. -/
def main (args : List String) : IO UInt32 := CoEmbed.dispatch args
