import GridKernel.Config.Basic
import GridKernel.Device.Arguments
import GridKernel.Launch.Run

/-!
# Errors of kernels

Why an operation on a kernel is refused or fails.
-/

namespace GridKernel

inductive BindingFault where
  | noField (kernel field : String)
  | bufferType (field : String) (type : ScalarType)
  | valueType (field : String) (type : ScalarType)
  | notAtomicArray (field : String)
  | notBound (field : String)
  | noArgument (field : String)
  | buffer (fault : BufferFault)
  deriving DecidableEq, Repr

def BindingFault.message : BindingFault → String
  | noField kernel field => s!"kernel '{kernel}' has no field '{field}'"
  | bufferType field type => s!"field '{field}' cannot hold a {type.name} buffer"
  | valueType field type => s!"field '{field}' cannot hold a {type.name} value"
  | notAtomicArray field => s!"field '{field}' is not an atomic array"
  | notBound field => s!"field '{field}' is not bound"
  | noArgument field => s!"field '{field}' has no launch argument"
  | buffer fault => fault.message

/-- Why a device did not finish a run. -/
inductive Failure where
  /-- A work-item stopped early. -/
  | stopped (fault : RunFault)
  /-- The accelerator gave a reason of its own. -/
  | refused (reason : String)
  | missing
  /-- An image that came back does not fit. -/
  | image (fault : ImageFault)
  deriving DecidableEq

def Failure.message : Failure → String
  | stopped fault => fault.message
  | refused reason => reason
  | missing => "no accelerator is configured"
  | image fault => fault.message

inductive KernelError where
  | compile (diagnostic : Diagnostic)
  | execution (device : Device) (failure : Failure)
  | busy (kernel : String)
  | range (fault : RangeFault)
  | binding (fault : BindingFault)
  | config (fault : ConfigFault)

namespace KernelError

def message : KernelError → String
  | compile diagnostic => diagnostic.text
  | execution device failure => s!"execution failed on {device.name}: {failure.message}"
  | busy kernel => s!"kernel `{kernel}` is already executing"
  | range fault => s!"invalid range: {fault.message}"
  | binding fault => s!"binding error: {fault.message}"
  | config fault => s!"config error: {fault.message}"

/-- Whether another device may succeed: only the accelerator's failures are worth a retry. -/
def isRetryable : KernelError → Bool
  | execution .accelerator _ => true
  | _ => false

end KernelError

end GridKernel
