import GridKernel.Device.Accelerator
import GridKernel.Dispatch.Error
import GridKernel.Dispatch.Report

/-!
# Kernel instances

A descriptor with what its fields are bound to, and how far the instance has come. An instance goes
from `uncompiled` to `compiled`, then between `executing` and `idle`.
-/

namespace GridKernel

/-- Where a compiled instance runs. -/
inductive Backend where
  | accelerator (program : ProgramId)
  | host (device : Device)
  deriving DecidableEq, Repr

def Backend.device : Backend → Device
  | accelerator _ => .accelerator
  | host device => device

inductive KernelState where
  | uncompiled
  | compiled (backend : Backend)
  | executing (backend : Backend)
  | idle (backend : Backend)
  deriving DecidableEq, Repr

namespace KernelState

def backend? : KernelState → Option Backend
  | uncompiled => none
  | compiled b => some b
  | executing b => some b
  | idle b => some b

def text : KernelState → String
  | uncompiled => "uncompiled"
  | compiled b => s!"compiled({b.device.name})"
  | executing b => s!"executing({b.device.name})"
  | idle b => s!"idle({b.device.name})"

/-- The program of an instance that waits on the accelerator. -/
def readyProgram? : KernelState → Option ProgramId
  | compiled (.accelerator program) => some program
  | idle (.accelerator program) => some program
  | _ => none

end KernelState

structure Kernel where
  descriptor : Descriptor
  /-- What each field is bound to, in the order of the fields. -/
  bindings : List (Option Bound)
  state : KernelState := .uncompiled
  /-- The number of the next pass. -/
  passId : Int32 := 0
  lastReport : Option Report := none

namespace Kernel

/-- Binds the atomic fields that are no arrays, each to a slot of its own. -/
def initialBindings : List Field → Memory → List (Option Bound) × Memory
  | [], m => ([], m)
  | f :: rest, m =>
    match f.slotWidth?.filter fun _ => !f.isArray with
    | some width =>
      let (m, id) := m.addSlots (.zeroed width f.scope 1)
      let (bound, m) := initialBindings rest m
      (some (.slots id) :: bound, m)
    | none =>
      let (bound, m) := initialBindings rest m
      (none :: bound, m)

/-- A new instance. -/
def new (d : Descriptor) (m : Memory) : Kernel × Memory :=
  let (bindings, m) := initialBindings d.fields m
  ({ descriptor := d, bindings := bindings }, m)

def device? (k : Kernel) : Option Device := k.state.backend?.map Backend.device

/-- The index and the declaration of a field. -/
def field (k : Kernel) (name : String) : Except BindingFault (Nat × Field) :=
  match k.descriptor.fieldIndex? name with
  | none => .error (.noField k.descriptor.name name)
  | some i =>
    match k.descriptor.fields[i]? with
    | some f => .ok (i, f)
    | none => .error (.noField k.descriptor.name name)

def setBinding (k : Kernel) (i : Nat) (b : Bound) : Kernel :=
  { k with bindings := k.bindings.set i (some b) }

/-- Binds an array field to a buffer, which it then shares. -/
def bind (k : Kernel) (name : String) (id : BufferId) (type : ScalarType) :
    Except BindingFault Kernel := do
  let (i, f) ← k.field name
  if f.isArray && f.scalarType? = some type then return k.setBinding i (.array id)
  else .error (.bufferType name type)

/-- Sets a scalar field. -/
def bindScalar (k : Kernel) (name : String) (v : Value) : Except BindingFault Kernel := do
  let (i, f) ← k.field name
  if !f.isArray && f.scalarType? = some v.type then return k.setBinding i (.scalar v)
  else .error (.valueType name v.type)

/-- Creates the slots of an atomic array field, all zero. -/
def bindSlots (k : Kernel) (name : String) (size : Nat) (m : Memory) :
    Except BindingFault (Kernel × Memory) := do
  let (i, f) ← k.field name
  match f.slotWidth?.filter fun _ => f.isArray with
  | none => .error (.notAtomicArray name)
  | some width =>
    let (m, id) := m.addSlots (.zeroed width f.scope size)
    return (k.setBinding i (.slots id), m)

/-- The number of the slots of an atomic field. -/
def slots? (k : Kernel) (name : String) : Option SlotsId := do
  match ← k.bindings[← k.descriptor.fieldIndex? name]? with
  | some (.slots id) => some id
  | _ => none

/-- What the fields are bound to, or the first one that is not bound. -/
def bound (k : Kernel) : Except BindingFault (List Bound) :=
  (k.descriptor.fields.zip k.bindings).mapM fun (f, b) =>
    match b with
    | some b => .ok b
    | none => .error (.notBound f.name)

end Kernel

end GridKernel
