import GridKernel.Cli.Arguments
import GridKernel.Cli.Values
import GridKernel.Config.Environment
import GridKernel.Dispatch.Execute
import GridKernel.Json.Printer

/-!
# Running a kernel from the command line

Fields are bound in the order of the arguments, the kernel is executed, and its arrays and slots
are written as a JSON document.
-/

namespace GridKernel.Cli

inductive RunError where
  | argument (fault : ArgumentFault)
  | kernel (error : KernelError)

/-- The configuration of the environment with the settings of the command line. -/
def configure (env : Config.Environment) (o : Overrides) : Except ConfigFault Config := do
  let c ← Config.ofEnvironment env
  let c ← if o.devices.isEmpty then pure c
    else do pure { c with devices := ← Config.parseDevices o.devices }
  let c := { c with threads := o.threads.or c.threads }
  let c := if o.fallback then { c with fallback := .fallBack } else c
  c.validated

/-- An instance without an accelerator, and the arrays bound so far, the latest first. -/
structure Session where
  inst : Instance Unit
  arrays : List (String × BufferId) := []

namespace Session

def start (c : Config) (d : Descriptor) : Session :=
  let (k, m) := Kernel.new d {}
  ⟨⟨k, { config := c, device := () }, m⟩, []⟩

def descriptor (s : Session) : Descriptor := s.inst.kernel.descriptor

def setKernel (s : Session) (k : Kernel) : Session := { s with inst := { s.inst with kernel := k } }

def setMemory (s : Session) (m : Memory) : Session := { s with inst := { s.inst with memory := m } }

def bound {α : Type} (r : Except BindingFault α) : Except RunError α :=
  r.mapError fun f => .kernel (.binding f)

/-- The element type of a field of a shape. -/
def fieldType? (s : Session) (name : String) (array : Bool) : Option ScalarType := do
  let f ← s.descriptor.field? name
  if f.isArray = array then f.scalarType? else none

def bindArray (s : Session) (arg : String) : Except RunError Session := do
  let (name, text) ← (assignment arg).mapError .argument
  match s.fieldType? name true with
  | none => .error (.argument (.notArray name))
  | some type => do
    let b ← (parseBuffer name type text).mapError .argument
    let (m, id) := s.inst.memory.addBuffer b
    let k ← bound (s.inst.kernel.bind name id type)
    return { (s.setKernel k).setMemory m with arrays := (name, id) :: s.arrays }

def bindScalar (s : Session) (arg : String) : Except RunError Session := do
  let (name, text) ← (assignment arg).mapError .argument
  match s.fieldType? name false with
  | none => .error (.argument (.notScalar name))
  | some type => do
    let v ← (parseValue name type text).mapError .argument
    return s.setKernel (← bound (s.inst.kernel.bindScalar name v))

def bindSlots (s : Session) (arg : String) : Except RunError Session := do
  let (name, text) ← (assignment arg).mapError .argument
  let n ← (parseCount name text).mapError .argument
  let (k, m) ← bound (s.inst.kernel.bindSlots name n s.inst.memory)
  return (s.setKernel k).setMemory m

/-- Executes the kernel a number of times. -/
def executeTimes (range : Range) : Nat → Session → Except RunError Session
  | 0, s => .ok s
  | n + 1, s =>
    match Action.execute id range s.inst with
    | .ok _ i => executeTimes range n { s with inst := i }
    | .error e _ => .error (.kernel e)

/-- Binds the fields and executes the kernel as asked for. -/
def perform (o : RunOptions) (s : Session) : Except RunError Session := do
  let s ← o.binds.foldlM bindArray s
  let s ← o.scalars.foldlM bindScalar s
  let s ← o.slots.foldlM bindSlots s
  let group := if o.localSizes.isEmpty then none else some o.localSizes
  let range ← (Range.ofSizes o.globalSizes group).mapError fun f => .kernel (.range f)
  s.executeTimes range o.passes

/-- A value in the document; single-precision numbers are widened. -/
def ofValue : Value → Json
  | .boolean v => .bool v
  | .byte v => .int v.toInt
  | .short v => .int v.toInt
  | .char v => .nat v.toNat
  | .int v => .int v.toInt
  | .long v => .int v.toInt
  | .float v => .ofDouble v.toDouble
  | .double v => .ofDouble v

/-- Puts a member into an object whose keys are in order; a key that is there is replaced. -/
def insert (key : String) (value : Json) : List (String × Json) → List (String × Json)
  | [] => [(key, value)]
  | (k, v) :: rest =>
    if key = k then (key, value) :: rest
    else if key < k then (key, value) :: (k, v) :: rest
    else (k, v) :: insert key value rest

def sorted (members : List (String × Json)) : Json :=
  .obj (members.foldl (fun o (k, v) => insert k v o) [])

/-- The arrays that were bound; of two under one name the later one. -/
def arrayMembers (s : Session) : List (String × Json) :=
  s.arrays.reverse.filterMap fun (name, id) => do
    return (name, .arr ((← s.inst.memory.buffer? id).values.map ofValue))

def slotMembers (s : Session) : List (String × Json) :=
  (s.descriptor.fields.filter Field.isAtomic).filterMap fun f => do
    let slots ← s.inst.memory.slots? (← s.inst.kernel.slots? f.name)
    return (f.name, .arr (slots.cells.toList.map fun v => .int v.toInt))

/-- The document about a finished run. -/
def document (s : Session) : Json :=
  let k := s.inst.kernel
  sorted
    [("kernel", .str s.descriptor.name),
      ("device", k.device?.elim .null fun d => .str d.name),
      ("pass_id", .int k.passId.toInt),
      ("execute_us", k.lastReport.elim .null fun r => .nat (r.timing.execute / 1000)),
      ("arrays", sorted s.arrayMembers),
      ("slots", sorted s.slotMembers)]

end Session

end GridKernel.Cli
