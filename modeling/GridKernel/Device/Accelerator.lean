import GridKernel.Device.Arguments
import GridKernel.Launch.Range

/-!
# Accelerators

An accelerator turns source text into programs and runs them on its own memory. It has a state of
its own, and each of its operations may fail with a reason.
-/

namespace GridKernel

/-- The number of a program on an accelerator. -/
abbrev ProgramId := Nat

/-- An operation of a device: it may fail, and changes the device's state either way. -/
abbrev DeviceAction (σ α : Type) := σ → Except String α × σ

structure Accelerator (σ : Type) where
  build : Source → DeviceAction σ ProgramId
  /-- Writes the memory of an argument. -/
  upload : ProgramId → Nat → List UInt8 → DeviceAction σ Unit
  /-- Reads the memory of an argument. -/
  download : ProgramId → Nat → DeviceAction σ (List UInt8)
  launch : ProgramId → List LaunchArg → Range → Dim3 → DeviceAction σ Unit

/-- An operation on the first part of a larger state. -/
def DeviceAction.beside {σ α : Type} (τ : Type) (a : DeviceAction σ α) : DeviceAction (σ × τ) α :=
  fun (s, t) =>
    let (r, s) := a s
    (r, (s, t))

/-- The accelerator with a further state beside its own, which it leaves alone. -/
def Accelerator.beside {σ : Type} (a : Accelerator σ) (τ : Type) : Accelerator (σ × τ) where
  build source := (a.build source).beside τ
  upload id arg bytes := (a.upload id arg bytes).beside τ
  download id arg := (a.download id arg).beside τ
  launch id args range localSize := (a.launch id args range localSize).beside τ

end GridKernel
