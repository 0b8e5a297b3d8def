import GridKernel.Cli.Commands

/-!
# The program

Carries out the plan of the command line on the real files and outputs.
-/

namespace GridKernel.Cli

/-- A system's error number, which some file operations report negated. -/
def errorNumber (code : UInt32) : Nat := code.toInt32.toInt.natAbs

/-- The reason of a failed file operation, in the words that a directory uses. -/
def reasonOf : IO.Error → String
  | .noFileOrDirectory _ _ _ => Directory.noSuchFile
  | .permissionDenied _ code _ => s!"Permission denied (os error {errorNumber code})"
  | .inappropriateType _ code _ =>
    if errorNumber code = 20 then Directory.notADirectory else Directory.isDirectory
  | e => toString e

def answered {α : Type} (action : IO α) : IO (Except String α) := do
  try
    return .ok (← action)
  catch e =>
    return .error (reasonOf e)

def Plan.carryOut : Plan → IO UInt32
  | .done r => do
    (← IO.getStdout).putStr r.out
    (← IO.getStderr).putStr r.err
    return r.code.toUInt32
  | .read path next => do
    (next (← answered (IO.FS.readFile path))).carryOut
  | .write path text next => do
    (next (← answered (IO.FS.writeFile path text))).carryOut

/-- The variables that configure the dispatcher. -/
def settingNames : List String := ["KERNELC_DEVICES", "KERNELC_FALLBACK", threadsVariable]

def environment : IO Config.Environment := do
  let found ← settingNames.mapM fun name => do return (name, ← IO.getEnv name)
  return fun name => (found.lookup name).join

end GridKernel.Cli

def main (args : List String) : IO UInt32 := do
  (GridKernel.Cli.plan (← GridKernel.Cli.environment) args).carryOut
