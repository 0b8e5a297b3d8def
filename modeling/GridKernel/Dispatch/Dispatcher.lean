import GridKernel.Dispatch.Kernel

/-!
# Dispatchers

What kernel instances share: the configuration, the accelerator, and the programs and descriptors
built so far.
-/

namespace GridKernel

structure Dispatcher (σ : Type) where
  config : Config := {}
  accelerator : Option (Accelerator σ) := none
  /-- The state of the accelerator. -/
  device : σ
  host : Host := {}
  /-- The programs built so far, by their source text. -/
  programs : List (String × ProgramId) := []
  /-- The descriptors built so far, the oldest first. -/
  descriptors : List (Schema × Descriptor) := []
  /-- The number of registered observers. -/
  observers : Nat := 0
  /-- The reports that observers received, the oldest first. -/
  delivered : List Report := []

namespace Dispatcher

/-- The descriptor of a schema with its number, built at most once. Equal schemas share it. -/
def describe {σ : Type} (d : Dispatcher σ) (s : Schema) :
    Except Diagnostic (Nat × Descriptor × Dispatcher σ) :=
  match d.descriptors.zipIdx.find? fun entry => entry.1.1.same s with
  | some ((_, descriptor), i) => .ok (i, descriptor, d)
  | none => do
    let descriptor ← s.descriptor
    let added := { d with descriptors := d.descriptors ++ [(s, descriptor)] }
    return (d.descriptors.length, descriptor, added)

def observe {σ : Type} (d : Dispatcher σ) : Dispatcher σ := { d with observers := d.observers + 1 }

/-- Hands a report to every observer. -/
def notify {σ : Type} (d : Dispatcher σ) (r : Report) : Dispatcher σ :=
  { d with delivered := d.delivered ++ List.replicate d.observers r }

end Dispatcher

end GridKernel
