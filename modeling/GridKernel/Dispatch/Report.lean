import GridKernel.Config.Basic

/-!
# Reports

What is told about a successful execution.
-/

namespace GridKernel

/-- Durations in nanoseconds. Evaluation takes no time of its own, so they are zero until whoever
holds a clock fills them in. -/
structure Timing where
  /-- The time to compile, if the execution compiled. -/
  compile : Option Nat := none
  transfer : Nat := 0
  execute : Nat := 0
  deriving DecidableEq, Repr

def Timing.total (t : Timing) : Nat := t.compile.getD 0 + t.transfer + t.execute

structure Report where
  kernel : String
  device : Device
  passId : Int32
  workItems : Nat
  timing : Timing
  /-- Whether the accelerator failed and a later device ran. -/
  fellBack : Bool
  deriving DecidableEq, Repr

/-- Whether the execution compiled the kernel. -/
def Report.compiled (r : Report) : Bool := r.timing.compile.isSome

end GridKernel
