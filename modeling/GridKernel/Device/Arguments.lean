import GridKernel.Memory.Basic
import GridKernel.Target.Program

/-!
# Launch arguments

What the accelerator is given for each parameter of the kernel function, in the order of the
parameters.
-/

namespace GridKernel

inductive LaunchArg where
  /-- Device memory of this many bytes. -/
  | buffer (bytes : Nat)
  /-- Scratch memory of a work-group. -/
  | scratch (bytes : Nat)
  | scalar (value : Value)
  deriving DecidableEq

namespace Field

/-- Whether the field is in memory that the host reads and writes. -/
def isTransferred (f : Field) : Bool := (f.isArray || f.isAtomic) && f.scope = .global

end Field

namespace Bound

/-- The number of elements or slots. -/
def size (m : Memory) : Bound → Nat
  | scalar _ => 1
  | array id => ((m.buffer? id).map Buffer.size).getD 0
  | slots id => ((m.slots? id).map SlotArray.size).getD 0

/-- The size of the device image. -/
def byteSize (m : Memory) : Bound → Nat
  | scalar _ => 0
  | array id => ((m.buffer? id).map Buffer.byteSize).getD 0
  | slots id => ((m.slots? id).map SlotArray.byteSize).getD 0

/-- The device image. -/
def image (m : Memory) : Bound → List UInt8
  | scalar _ => []
  | array id => ((m.buffer? id).map Buffer.image).getD []
  | slots id => ((m.slots? id).map SlotArray.image).getD []

end Bound

inductive ImageFault where
  | buffer (fault : BufferFault)
  | slots (fault : SlotImageFault)
  deriving DecidableEq, Repr

def ImageFault.message : ImageFault → String
  | buffer fault => s!"binding error: {fault.message}"
  | slots fault => fault.message

/-- Replaces what a field is bound to by the contents of a device image. -/
def Memory.loadImage (m : Memory) (b : Bound) (bytes : List UInt8) : Except ImageFault Memory :=
  match b with
  | .scalar _ => .ok m
  | .array id =>
    match m.buffer? id with
    | none => .ok m
    | some buffer => do
      let loaded ← (buffer.ofImage bytes).mapError .buffer
      return m.modifyBuffer id fun _ => loaded
  | .slots id =>
    match m.slots? id with
    | none => .ok m
    | some slots => do
      let loaded ← (slots.ofImage bytes).mapError .slots
      return m.modifySlots id fun _ => loaded

namespace Descriptor

/-- The argument of a field. -/
def fieldArg (f : Field) (b : Bound) (m : Memory) : LaunchArg :=
  match b with
  | .scalar v => .scalar v
  | b => if f.isTransferred then .buffer (b.byteSize m) else .scratch (b.byteSize m)

/-- The argument of a parameter. -/
def launchArg (d : Descriptor) (bound : List Bound) (passId : Int32) (m : Memory) :
    KernelParam → Option LaunchArg
  | .field i => do return fieldArg (← d.fields[i]?) (← bound[i]?) m
  | .length i => do return .scalar (.int (.ofNat ((← bound[i]?).size m)))
  | .passId => some (.scalar (.int passId))

/-- The arguments of a launch, in the order of the parameters. -/
def launchArgs (d : Descriptor) (bound : List Bound) (passId : Int32) (m : Memory) :
    List LaunchArg :=
  d.kernelParams.filterMap (d.launchArg bound passId m)

/-- A field whose data move to the device and back. -/
structure Transfer where
  /-- The position of its argument. -/
  arg : Nat
  field : Field
  bound : Bound

/-- The fields that move, each with the position of its argument. -/
def transfers (d : Descriptor) (bound : List Bound) : List Transfer :=
  d.kernelParams.zipIdx.filterMap fun (param, arg) =>
    match param with
    | .field i => do
      let t : Transfer := ⟨arg, ← d.fields[i]?, ← bound[i]?⟩
      if t.field.isTransferred then some t else none
    | _ => none

/-- The position of a field's argument. -/
def argIndex? (d : Descriptor) (field : Nat) : Option Nat := d.kernelParams.idxOf? (.field field)

end Descriptor

end GridKernel
