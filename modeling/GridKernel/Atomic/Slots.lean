import GridKernel.Atomic.Op

/-!
# Atomic slots

The slots behind one atomic field: one for a scalar field, one per element for an array.
-/

namespace GridKernel

/-- The outcome of an operation on one slot: what the slot holds and what the operation returns.
A store returns what it stored, every other operation the value before it. -/
def AtomicOp.apply (op : AtomicOp) (w : SlotWidth) (current : Int64) (operands : List Int64) :
    Int64 × Int64 :=
  match op.next current operands w with
  | none => (current, current)
  | some next => (next, if op = .set then next else current)

structure SlotArray where
  width : SlotWidth
  scope : SlotScope
  cells : Array Int64
  deriving DecidableEq, Repr

namespace SlotArray

def zeroed (width : SlotWidth) (scope : SlotScope) (size : Nat) : SlotArray :=
  ⟨width, scope, Array.replicate size 0⟩

def size (s : SlotArray) : Nat := s.cells.size

def get? (s : SlotArray) (i : Nat) : Option Int64 := s.cells[i]?

/-- Writes one slot, taking the value at the slots' width; nothing happens out of range. -/
def set (s : SlotArray) (i : Nat) (v : Int64) : SlotArray :=
  { s with cells := s.cells.modify i fun _ => s.width.wrap v }

/-- Performs an operation on one slot and returns its result. -/
def perform? (s : SlotArray) (i : Nat) (op : AtomicOp) (operands : List Int64) :
    Option (SlotArray × Int64) :=
  (s.get? i).map fun current =>
    let (stored, result) := op.apply s.width current operands
    ({ s with cells := s.cells.setIfInBounds i stored }, result)

/-- Puts back earlier contents. -/
def restore (s : SlotArray) (values : List Int64) : SlotArray :=
  { s with cells :=
      (s.cells.toList.zipIdx.map fun (v, i) => (values[i]?.map s.width.wrap).getD v).toArray }

end SlotArray

end GridKernel
