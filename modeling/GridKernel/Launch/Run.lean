import GridKernel.Eval.Basic

/-!
# Runs on the host

A run evaluates the entry point for every work-item of a range, either in the order of their flat
indices or in chunks, one for each worker of a pool. A work-item that stops early ends the run.
-/

namespace GridKernel

/-- What is launched. -/
structure Launch where
  descriptor : Descriptor
  bound : List Bound
  range : Range
  localSize : Dim3
  passId : Int32

/-- The work-item that ended a run, and why. -/
structure RunFault where
  globalId : Dim3
  stop : Eval.Stop
  deriving DecidableEq

def Eval.Stop.message : Eval.Stop → String
  | .trap t => t.message
  | .exhausted => "no steps left"

def RunFault.message (f : RunFault) : String :=
  let p := f.globalId
  s!"work-item ({p.x}, {p.y}, {p.z}): {f.stop.message}"

namespace Launch

def context (l : Launch) (flat : Nat) : Eval.Context :=
  ⟨l.descriptor, l.bound, .ofFlat l.range l.localSize l.passId flat⟩

/-- Runs one work-item. -/
def runItem (l : Launch) (steps : Nat) (flat : Nat) (m : Memory) : Memory × Option RunFault :=
  let c := l.context flat
  match Eval.run c steps m with
  | (m, none) => (m, none)
  | (m, some stop) => (m, some ⟨c.item.globalId, stop⟩)

/-- Runs `count` work-items from a flat index on. -/
def runFrom (l : Launch) (steps : Nat) : Nat → Nat → Memory → Memory × Option RunFault
  | _, 0, m => (m, none)
  | flat, count + 1, m =>
    match l.runItem steps flat m with
    | (m, none) => runFrom l steps (flat + 1) count m
    | stopped => stopped

/-- Flat indices from `start` to before `stop`. -/
structure Chunk where
  start : Nat
  stop : Nat
  deriving DecidableEq, Repr

def runChunk (l : Launch) (steps : Nat) (c : Chunk) (m : Memory) : Memory × Option RunFault :=
  l.runFrom steps c.start (c.stop - c.start) m

/-- The number of chunks: one for each worker, as far as there are work-items. -/
def chunkCount (threads total : Nat) : Nat := max 1 (min threads (max total 1))

/-- The number of work-items in a full chunk. -/
def chunkSize (threads total : Nat) : Nat :=
  let count := chunkCount threads total
  (total + count - 1) / count

/-- Cuts the flat indices into chunks of one size; the last ones may be shorter. -/
def chunks (threads total : Nat) : List Chunk :=
  let size := chunkSize threads total
  (List.range (chunkCount threads total)).map fun c => ⟨c * size, min ((c + 1) * size) total⟩

/-- Runs chunks one after the other. -/
def runChunks (l : Launch) (steps : Nat) : List Chunk → Memory → Memory × Option RunFault
  | [], m => (m, none)
  | c :: rest, m =>
    match l.runChunk steps c m with
    | (m, none) => runChunks l steps rest m
    | stopped => stopped

def runSequential (l : Launch) (steps : Nat) (m : Memory) : Memory × Option RunFault :=
  l.runFrom steps 0 l.range.workItems m

end Launch

/-- A thread pool, as far as a run can see it: the memory that workers leave which run chunks of a
launch beside each other, and the work-item that ended the run. Workers may take turns in any way,
and each way of theirs is a pool of its own. -/
structure Pool where
  run : Launch → Nat → List Launch.Chunk → Memory → Memory × Option RunFault

/-- The workers take turns in the order of their chunks. -/
def Pool.inOrder : Pool := ⟨Launch.runChunks⟩

/-- Runs the work-items on a pool, a chunk for each worker. -/
def Launch.runPooled (l : Launch) (pool : Pool) (steps threads : Nat) (m : Memory) :
    Memory × Option RunFault :=
  pool.run l steps (chunks threads l.range.workItems) m

/-- What a run on the host depends on beside the launch and the configuration. -/
structure Host where
  /-- The steps that the evaluation of a work-item may take. -/
  steps : Nat := 1 <<< 60
  /-- The number of workers where the configuration names none. -/
  parallelism : Nat := 1
  pool : Pool := .inOrder

end GridKernel
