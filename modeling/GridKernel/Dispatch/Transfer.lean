import GridKernel.Dispatch.Execute

/-!
# Explicit transfers

`upload` and `download` move one field between the host and the accelerator. They have an effect only if
transfers are explicit and the instance is on the accelerator.
-/

namespace GridKernel.Action

variable {σ : Type}

/-- The program of the instance, which is compiled first if needed; none if transfers are
implicit or the instance runs elsewhere. -/
def explicitProgram : Action σ (Option ProgramId) := do
  if (← get).dispatcher.config.transfer = .implicit then return none
  let _ ← compile
  return (← get).kernel.state.readyProgram?

/-- The program, the position of the argument and the binding of a field that can be moved. -/
def transferTarget (name : String) : Action σ (Option (ProgramId × Nat × Bound)) := do
  let (i, f) ← ofExcept .binding ((← get).kernel.field name)
  match ← explicitProgram with
  | none => return none
  | some program =>
    if !f.isTransferred then return none
    let k := (← get).kernel
    match k.bindings[i]?.join with
    | none => throw (.binding (.notBound name))
    | some b =>
      match k.descriptor.argIndex? i with
      | none => throw (.binding (.noArgument name))
      | some arg => return some (program, arg, b)

/-- Copies a field to the accelerator. -/
def upload (name : String) : Action σ Unit := do
  match ← transferTarget name with
  | none => return ()
  | some (program, arg, b) => do
    let image := b.image (← get).memory
    onDevice (·.upload program arg image)

/-- Copies a field back from the accelerator. -/
def download (name : String) : Action σ Unit := do
  match ← transferTarget name with
  | none => return ()
  | some (program, arg, b) => do
    let bytes ← onDevice (·.download program arg)
    load b bytes

end GridKernel.Action
