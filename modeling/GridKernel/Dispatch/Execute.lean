import GridKernel.Dispatch.Compile

/-!
# Execution of an instance

An execution takes the instance, reads the number of its pass, runs, gives the instance back and
then counts the pass. A failed run leaves arrays and slots as they were before it.
-/

namespace GridKernel.Action

variable {σ : Type}

def setMemory (m : Memory) : Action σ Unit := modify fun i => { i with memory := m }

/-- Takes the instance for an execution, compiling it first if needed. Tells where it runs and
whether it was compiled. -/
def acquire : Action σ (Backend × Bool) := do
  let i ← get
  let (b, compiled) ← match i.kernel.state with
    | .executing _ => throw (.busy i.kernel.descriptor.name)
    | .uncompiled => do pure (← compileFor i.dispatcher.config.devices, true)
    | .compiled b => pure (b, false)
    | .idle b => pure (b, false)
  modify (·.setState (.executing b))
  return (b, compiled)

/-- Gives the instance back. -/
def release (b : Backend) : Action σ Unit := modify (·.setState (.idle b))

def readPassId : Action σ Int32 := do return (← get).kernel.passId

/-- Counts a pass. -/
def countPass : Action σ Unit :=
  modify fun i => { i with kernel := { i.kernel with passId := i.kernel.passId + 1 } }

/-- Hands on the report of an execution and keeps it. -/
def publish (r : Report) : Action σ Unit :=
  modify fun i =>
    { i with
      dispatcher := i.dispatcher.notify r
      kernel := { i.kernel with lastReport := some r } }

/-- Runs on the host. -/
def runOnHost (device : Device) (l : Launch) : Action σ Unit := do
  let i ← get
  let host := i.dispatcher.host
  let (m, fault) := match device with
    | .pool =>
      l.runPooled host.pool host.steps (i.dispatcher.config.workers host.parallelism) i.memory
    | _ => l.runSequential host.steps i.memory
  setMemory m
  match fault with
  | none => return ()
  | some f => throw (.execution device (.stopped f))

/-- Writes fields to the device. -/
def uploadAll (program : ProgramId) : List Descriptor.Transfer → Action σ Unit
  | [] => return ()
  | t :: rest => do
    let image := t.bound.image (← get).memory
    onDevice (·.upload program t.arg image)
    uploadAll program rest

/-- Reads the images of fields from the device. -/
def downloadAll (program : ProgramId) :
    List Descriptor.Transfer → Action σ (List (Bound × List UInt8))
  | [] => return []
  | t :: rest => do
    let bytes ← onDevice (·.download program t.arg)
    return (t.bound, bytes) :: (← downloadAll program rest)

/-- Loads an image into what a field is bound to. -/
def load (b : Bound) (bytes : List UInt8) : Action σ Unit := do
  let loaded := (← get).memory.loadImage b bytes
  setMemory (← ofExcept (fun f => .execution .accelerator (.image f)) loaded)

def loadAll : List (Bound × List UInt8) → Action σ Unit
  | [] => return ()
  | (b, bytes) :: rest => do
    load b bytes
    loadAll rest

/-- Runs on the accelerator. `meanwhile` is what others do with the instance while the device
runs. Nothing reaches the host before all images are back. -/
def runOnDevice (meanwhile : Instance σ → Instance σ) (program : ProgramId) (l : Launch) :
    Action σ Unit := do
  let i ← get
  let moved := match i.dispatcher.config.transfer with
    | .implicit => l.descriptor.transfers l.bound
    | .explicit => []
  let args := l.descriptor.launchArgs l.bound l.passId i.memory
  uploadAll program moved
  modify meanwhile
  onDevice (·.launch program args l.range l.localSize)
  let images ← downloadAll program (moved.filter (·.field.isWritten))
  loadAll images

/-- Runs on a backend; arrays and slots are put back if it fails. -/
def run (meanwhile : Instance σ → Instance σ) (b : Backend) (l : Launch) : Action σ Unit := do
  let before := Snapshot.capture l.descriptor l.bound (← get).memory
  let outcome ← attempt <| match b with
    | .accelerator program => runOnDevice meanwhile program l
    | .host device => runOnHost device l
  match outcome with
  | .ok _ => return ()
  | .error e => do
    setMemory (before.restore (← get).memory)
    throw e

/-- How a run ended: where it ran last, whether it fell back, and its outcome. -/
structure RunOutcome where
  backend : Backend
  fellBack : Bool
  outcome : Except KernelError Unit

/-- Runs, and runs again on a later device if the accelerator failed and the policy is to fall
back. -/
def runWithRetry (meanwhile : Instance σ → Instance σ) (b : Backend) (l : Launch) :
    Action σ RunOutcome := do
  match ← attempt (run meanwhile b l) with
  | .ok _ => return ⟨b, false, .ok ()⟩
  | .error e => do
    let config := (← get).dispatcher.config
    if e.isRetryable && config.fallback = .fallBack then
      match ← attempt (compileFor config.afterAccelerator) with
      | .error e => return ⟨b, false, .error e⟩
      | .ok next => return ⟨next, true, ← attempt (run meanwhile next l)⟩
    else return ⟨b, false, .error e⟩

/-- Runs the entry point once for each index of a range. -/
def execute (meanwhile : Instance σ → Instance σ) (range : Range) : Action σ Unit := do
  let i ← get
  let d := i.kernel.descriptor
  let bound ← ofExcept .binding i.kernel.bound
  let localSize ← ofExcept .range (range.localSizes i.dispatcher.config.maxGroupSize)
  let (b, compiled) ← acquire
  let passId ← readPassId
  let r ← runWithRetry meanwhile b ⟨d, bound, range, localSize, passId⟩
  release r.backend
  ofExcept id r.outcome
  countPass
  publish
    { kernel := d.name
      device := r.backend.device
      passId := passId
      workItems := range.workItems
      timing := { compile := if compiled then some 0 else none }
      fellBack := r.fellBack }

end GridKernel.Action
