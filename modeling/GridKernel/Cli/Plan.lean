import GridKernel.Text.Blank

/-!
# What a command does to its surroundings

A plan ends, or asks for a file to be read or written and goes on with the answer. Whoever carries
it out needs no knowledge of the commands.
-/

namespace GridKernel.Cli

/-- How a command ends: the exit code and the two outputs. -/
structure Result where
  code : Nat := 0
  out : String := ""
  err : String := ""
  deriving DecidableEq, Repr

inductive Plan where
  | done (result : Result)
  /-- Reads a file; a failure comes with its reason. -/
  | read (path : String) (next : Except String String → Plan)
  /-- Writes a file. -/
  | write (path text : String) (next : Except String Unit → Plan)

/-- An unsuccessful end. -/
def fail (err : String) : Result := { code := 1, err := err }

/-- An unsuccessful end with one line of explanation. -/
def failure (message : String) : Result := fail ("error: " ++ message ++ "\n")

/-! ## A directory of files -/

/-- The files of a directory without subdirectories. -/
abbrev Directory := List (String × String)

namespace Directory

def noSuchFile : String := "No such file or directory (os error 2)"

def isDirectory : String := "Is a directory (os error 21)"

def notADirectory : String := "Not a directory (os error 20)"

/-- The steps of a path; steps that stay in place are left out. -/
def steps (path : String) : List String :=
  (Text.split '/' path).filter fun s => s ≠ "" && s ≠ "."

/-- The name of the file at a path, or why there is none. -/
def locate (d : Directory) (path : String) : Except String String :=
  match steps path with
  | [] => .error (if path = "" then noSuchFile else isDirectory)
  | [name] => .ok name
  | name :: _ => .error (if (d.lookup name).isSome then notADirectory else noSuchFile)

def read (d : Directory) (path : String) : Except String String := do
  match d.lookup (← locate d path) with
  | some text => return text
  | none => .error noSuchFile

/-- Writes a file, replacing the one that is there. -/
def write (d : Directory) (path text : String) : Except String Directory := do
  let name ← locate d path
  return (name, text) :: d.filter (·.1 ≠ name)

end Directory

/-- Carries out a plan in a directory. -/
def Plan.runIn (d : Directory) : Plan → Result × Directory
  | done r => (r, d)
  | read path next => (next (Directory.read d path)).runIn d
  | write path text next =>
    match Directory.write d path text with
    | .ok d => (next (.ok ())).runIn d
    | .error reason => (next (.error reason)).runIn d

end GridKernel.Cli
