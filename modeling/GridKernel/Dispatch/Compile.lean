import GridKernel.Dispatch.Dispatcher

/-!
# Compilation of an instance

An instance is compiled for the first device of the configuration that accepts it. Actions on an
instance keep what they changed when they fail; what is undone is undone explicitly.
-/

namespace GridKernel

/-- A kernel instance with its dispatcher and the memory of the host. -/
structure Instance (σ : Type) where
  kernel : Kernel
  dispatcher : Dispatcher σ
  memory : Memory

/-- An action on an instance. -/
abbrev Action (σ : Type) := EStateM KernelError (Instance σ)

namespace Instance

variable {σ : Type}

def setState (s : KernelState) (i : Instance σ) : Instance σ :=
  { i with kernel := { i.kernel with state := s } }

def setDevice (s : σ) (i : Instance σ) : Instance σ :=
  { i with dispatcher := { i.dispatcher with device := s } }

def remember (text : String) (program : ProgramId) (i : Instance σ) : Instance σ :=
  { i with dispatcher :=
      { i.dispatcher with programs := (text, program) :: i.dispatcher.programs } }

end Instance

namespace Action

variable {σ α ε : Type}

/-- The outcome of an action as a value. -/
def attempt (a : Action σ α) : Action σ (Except KernelError α) := fun i =>
  match a i with
  | .ok x i => .ok (.ok x) i
  | .error e i => .ok (.error e) i

def ofExcept (error : ε → KernelError) : Except ε α → Action σ α
  | .ok a => pure a
  | .error e => throw (error e)

/-- Asks the accelerator. -/
def onDevice (ask : Accelerator σ → DeviceAction σ α) : Action σ α := do
  let i ← get
  match i.dispatcher.accelerator with
  | none => throw (.execution .accelerator .missing)
  | some acc =>
    let (r, s) := ask acc i.dispatcher.device
    set (i.setDevice s)
    ofExcept (fun reason => .execution .accelerator (.refused reason)) r

/-- The accelerator's program for a source text, built at most once. -/
def program (source : Source) : Action σ ProgramId := do
  match (← get).dispatcher.programs.lookup source.text with
  | some id => return id
  | none => do
    let id ← onDevice (·.build source)
    modify (·.remember source.text id)
    return id

/-- The first of the devices that accepts the kernel. A failed build ends the search unless the
policy is to fall back; then the last failure is reported if no device is left. -/
def selectFrom (d : Descriptor) : List Device → Option KernelError → Action σ Backend
  | [], last => throw (last.getD (.config (.noUsableDevice d.name)))
  | .accelerator :: rest, last => do
    let dispatcher := (← get).dispatcher
    if dispatcher.accelerator.isNone then selectFrom d rest last
    else do
      let source ← ofExcept (fun f => .compile (f.diagnose d.name)) d.compile
      match ← attempt (program source) with
      | .ok id => return .accelerator id
      | .error e =>
        if dispatcher.config.fallback = .strict then throw e else selectFrom d rest (some e)
  | device :: _, _ => return .host device

/-- Checks the kernel and selects a device for it. -/
def compileFor (devices : List Device) : Action σ Backend := do
  let d := (← get).kernel.descriptor
  ofExcept (fun f => .compile (f.diagnose d.name)) (Typing.check d)
  selectFrom d devices none

/-- Compiles the instance, unless it is compiled, and tells its device. -/
def compile : Action σ Device := do
  let i ← get
  match i.kernel.state with
  | .executing _ => throw (.busy i.kernel.descriptor.name)
  | .compiled b => return b.device
  | .idle b => return b.device
  | .uncompiled => do
    let b ← compileFor i.dispatcher.config.devices
    modify (·.setState (.compiled b))
    return b.device

end Action

end GridKernel
