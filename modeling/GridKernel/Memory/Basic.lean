import GridKernel.Kernel.Descriptor
import GridKernel.Memory.Buffer

/-!
# Host memory

The buffers and slot arrays that kernels are bound to. A buffer can be bound to several fields and
several kernels, which then share it, so bindings hold its number.
-/

namespace GridKernel

structure Memory where
  buffers : Array Buffer := #[]
  slots : Array SlotArray := #[]
  deriving DecidableEq, Repr

/-- The number of a buffer. -/
abbrev BufferId := Nat

/-- The number of a slot array. -/
abbrev SlotsId := Nat

/-- What a field is bound to. -/
inductive Bound where
  | scalar (value : Value)
  | array (id : BufferId)
  | slots (id : SlotsId)
  deriving DecidableEq

namespace Memory

def addBuffer (m : Memory) (b : Buffer) : Memory × BufferId :=
  ({ m with buffers := m.buffers.push b }, m.buffers.size)

def addSlots (m : Memory) (s : SlotArray) : Memory × SlotsId :=
  ({ m with slots := m.slots.push s }, m.slots.size)

def buffer? (m : Memory) (id : BufferId) : Option Buffer := m.buffers[id]?

def slots? (m : Memory) (id : SlotsId) : Option SlotArray := m.slots[id]?

def modifyBuffer (m : Memory) (id : BufferId) (f : Buffer → Buffer) : Memory :=
  { m with buffers := m.buffers.modify id f }

def modifySlots (m : Memory) (id : SlotsId) (f : SlotArray → SlotArray) : Memory :=
  { m with slots := m.slots.modify id f }

end Memory

/-- The contents to be put back if a run fails: the arrays that the kernel writes, and all
slots. -/
structure Snapshot where
  arrays : List (BufferId × Array UInt64)
  slots : List (SlotsId × Array Int64)
  deriving DecidableEq, Repr

namespace Snapshot

def capture (d : Descriptor) (bound : List Bound) (m : Memory) : Snapshot where
  arrays := (d.fields.zip bound).filterMap fun (f, b) =>
    match b with
    | .array id => if f.isWritten then (m.buffer? id).map fun b => (id, b.cells) else none
    | _ => none
  slots := bound.filterMap fun b =>
    match b with
    | .slots id => (m.slots? id).map fun s => (id, s.cells)
    | _ => none

def restore (s : Snapshot) (m : Memory) : Memory :=
  let m := s.arrays.foldl
    (fun m (id, cells) => m.modifyBuffer id fun b => { b with cells := cells }) m
  s.slots.foldl (fun m (id, cells) => m.modifySlots id fun a => a.restore cells.toList) m

end Snapshot

end GridKernel
