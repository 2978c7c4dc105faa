import CoEmbed.Fault
import CoEmbed.Table

/-!
# The Store of Artifacts

What has been fitted is kept in one directory, a file for each name.

* `joinPath`, `pathParts`, `artifactPath` — where an artifact lies.
* `Place` — a file, seen from the directory.
* `Store` — the directory and what the files in it and above it hold.
* `Store.place` — the file that a path leads to.
* `Store.save`, `Store.load` — keeping an artifact, and getting one back that is of the
  expected type.
* `Store.loadInstance` — getting one back that is an instance of a class.
* `Store.names` — the names of all artifacts.

## Name convention

A file is named after its artifact and a suffix. Artifacts are listed in the order of their
file names, suffix included.

## Path convention

A name with slashes in it is a path that starts at the directory. It may go up, and back down
again into the directory itself, but there are no other directories to go into. What lies
above the directory can be kept and got back, and is not listed. A path that ends at a
directory, or in a slash, names no file.
-/

namespace CoEmbed

/-- The suffix of the file of an artifact. -/
def artifactSuffix : String := ".joblib"

/-- The file of the artifact with a name. -/
def artifactFile (name : String) : String := name ++ artifactSuffix

/-- The name of the artifact in a file, if it is the file of one. -/
def artifactName? (file : String) : Option String :=
  if file.endsWith artifactSuffix then
    some (String.ofList (file.toList.take (file.length - artifactSuffix.length)))
  else none

/-- A path **below a directory**, with one slash in between; a path that starts with a slash
stands for itself. -/
def joinPath (dir path : String) : String :=
  if path.startsWith "/" then path
  else if dir = "" || dir.endsWith "/" then dir ++ path
  else dir ++ "/" ++ path

/-- The **parts of a path**, between its slashes. -/
def pathParts (path : String) : List String := (path.toList.splitOn '/').map String.ofList

/-- The directory of artifacts, unless another one is given: below the root. -/
def modelsDirectory (root : String) (given : Option String) : String :=
  match given with
  | none | some "" => joinPath root "models"
  | some dir => dir

/-- Where the artifact with a name **lies**. -/
def artifactPath (dir name : String) : String := joinPath dir (artifactFile name)

/-- The names of the artifacts among some files. -/
def artifactNames (files : List String) : List String :=
  (files.mergeSort fun a b => decide (a ≤ b)).filterMap artifactName?

/-- A **file**, seen from the directory of artifacts: how many directories further up it lies,
and its name. -/
structure Place where
  above : Nat
  file : String
  deriving DecidableEq, Repr

/-- The greatest number of bytes in the name of a file or a directory. -/
def longestName : Nat := 255

/-- The number of bytes that no path has room for. -/
def pathLimit : Nat := 4096

/-- A **directory of artifacts**. A file holds an artifact, or nothing. -/
structure Store (ω : Type) where
  dir : String
  files : Table Place (Option ω)

namespace Store

variable {ω : Type}

/-- A directory without artifacts. -/
def empty (dir : String) : Store ω := ⟨dir, Table.empty⟩

/-- The name of the directory, seen from the one above it. -/
def home (s : Store ω) : String :=
  ((pathParts s.dir).filter fun c => decide (c ≠ "")).getLastD ""

/-- Where the artifact with a name lies in the store. -/
def path (s : Store ω) (name : String) : String := artifactPath s.dir name

/-- A part of a path that **leads from directory to directory** whatever they hold. -/
def isStep (part : String) : Bool := part = "" || part = "." || part = ".."

/-- Goes from a directory into the one that **a part of a path** names. -/
def enter (s : Store ω) (above : Nat) (part : String) : Except Fault Nat :=
  if part = "" ∨ part = "." then .ok above
  else if part = ".." then .ok (above + 1)
  else if longestName < part.utf8ByteSize then .error .unusablePath
  else if part = s.home ∧ above = 1 then .ok 0
  else if Place.mk above part ∈ s.files then .error .notDirectory
  else .error .missingFile

/-- The file that the **last part of a path** names. -/
def last (s : Store ω) (above : Nat) (part : String) : Except Fault Place :=
  if isStep part ∨ part = s.home ∧ above = 1 then .error .isDirectory
  else if longestName < part.utf8ByteSize then .error .unusablePath
  else .ok ⟨above, part⟩

/-- Goes along the parts of a path, the last of which names a file. A slash behind the last
name asks for a directory. -/
def walk (s : Store ω) (above : Nat) : List String → Except Fault Place
  | [] => .error .isDirectory
  | part :: parts =>
    if parts = [] then s.last above part
    else if parts.all (fun p => decide (p = "")) then .error .isDirectory
    else do s.walk (← s.enter above part) parts

/-- The **file that a path leads to**. -/
def place (s : Store ω) (path : String) : Except Fault Place :=
  let parts := pathParts path
  if path.toList.contains (Char.ofNat 0) then .error .badValue
  else if pathLimit ≤ path.utf8ByteSize then .error .unusablePath
  else if !path.startsWith "/" then s.walk 0 parts
  else .error (if parts.all isStep then .isDirectory else .missingFile)

/-- Puts an **empty file** in place of what was there. -/
def touch (s : Store ω) (file : String) : Except Fault (Store ω) := do
  return { s with files := s.files.insert (← s.place file) none }

/-- **Keeps an artifact** under a name, in place of what was there. -/
def save (s : Store ω) (name : String) (x : ω) : Except Fault (Store ω) := do
  return { s with files := s.files.insert (← s.place (artifactFile name)) (some x) }

/-- The file with the artifact of a name, if it is there, and what it holds. -/
def find? (s : Store ω) (name : String) : Option (Option ω) :=
  match s.place (artifactFile name) with
  | .ok p => s.files.get? p
  | .error _ => none

/-- The artifact with a name, which has to be an **instance of a class**. If it is not, the fault
says of which type it is. -/
def loadInstance (typeOf : ω → String) (expected : String) (isInstance : ω → Bool) (s : Store ω)
    (name : String) : Except Fault ω :=
  match s.find? name with
  | none => .error (.noArtifact name (s.path name))
  | some none => .error .emptyFile
  | some (some x) =>
    if isInstance x then .ok x else .error (.wrongArtifact name (typeOf x) expected)

/-- The artifact with a name, which has to be of the **expected type**. -/
def load (typeOf : ω → String) (expected : String) (s : Store ω) (name : String) :
    Except Fault ω :=
  s.loadInstance typeOf expected (fun x => decide (typeOf x = expected)) name

/-- The **names** of all artifacts. -/
def names (s : Store ω) : List String :=
  artifactNames ((s.files.keys.filter fun p => p.above = 0).map Place.file)

/-- What is reported when an artifact has been kept. -/
def savedLine (s : Store ω) (name : String) : String :=
  "Saved '" ++ name ++ "' -> " ++ s.path name

/-- What is reported when an artifact has been got back. -/
def loadedLine (s : Store ω) (name : String) : String :=
  "Loaded '" ++ name ++ "' from " ++ s.path name

end Store

end CoEmbed
