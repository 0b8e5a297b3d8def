import GridKernel.Lang.Operator
import GridKernel.Launch.Range

/-!
# Work-items

The place of one work-item in its range, and what it can ask about it.
-/

namespace GridKernel

structure WorkItem where
  globalId : Dim3
  globalSize : Dim3
  localSize : Dim3
  passId : Int32
  deriving DecidableEq, Repr

namespace WorkItem

/-- The work-item of a flat index. -/
def ofFlat (r : Range) (localSize : Dim3) (passId : Int32) (flat : Nat) : WorkItem :=
  ⟨r.coords flat, r.globalSize, localSize, passId⟩

/-- The answer in one of the three dimensions, before it is cut to a word. -/
def answer (w : WorkItem) (func : Builtin) (dim : Nat) : Nat :=
  match func with
  | .globalId => w.globalId.get dim
  | .localId => w.globalId.get dim % w.localSize.get dim
  | .groupId => w.globalId.get dim / w.localSize.get dim
  | .globalSize => w.globalSize.get dim
  | .localSize => w.localSize.get dim
  | .numGroups => w.globalSize.get dim / w.localSize.get dim
  | _ => 0

/-- The answer to a question about a dimension. Beyond the three dimensions an identity is zero
and a size is one. -/
def query (w : WorkItem) (func : Builtin) (dim : Int64) : Int32 :=
  let d := dim.toInt
  if 0 ≤ d && d < 3 then .ofNat (w.answer func d.toNat)
  else match func with
    | .globalId | .localId | .groupId => 0
    | _ => 1

end WorkItem

end GridKernel
