import GridKernel.Eval.Operator
import GridKernel.Launch.WorkItem
import GridKernel.Memory.Basic

/-!
# The state of a running work-item

The locals of all active methods are in one vector, and a marker says where those of the running one
begin. A write to a scalar field is private to the work-item; arrays and slots are in the memory it
shares with the others.
-/

namespace GridKernel.Eval

/-- What a work-item runs: a kernel, what its fields are bound to, and where it is. -/
structure Context where
  descriptor : Descriptor
  bound : List Bound
  item : WorkItem

/-- Locals, the latest first. -/
abbrev Frame := List (String × Value)

structure Machine where
  memory : Memory
  /-- The scalar fields this work-item has written, by their index. -/
  scalars : List (Nat × Value) := []
  /-- The locals of all active methods. -/
  locals : Frame := []
  /-- The number of locals that belong to methods which wait for the running one. -/
  frame : Nat := 0

namespace Machine

/-- The locals of the method that is running. -/
def current (m : Machine) : Frame := m.locals.take (m.locals.length - m.frame)

/-- The locals of the methods that wait for it. -/
def suspended (m : Machine) : Frame := m.locals.drop (m.locals.length - m.frame)

end Machine

/-- Why evaluation stops early: a trap, or the steps it was given are used up. -/
inductive Stop where
  | trap (t : Trap)
  | exhausted
  deriving DecidableEq

/-- A computation of a work-item; it may stop early, and keeps what it did until then. -/
abbrev Comp := EStateM Stop Machine

def trap {α : Type} (t : Trap) : Comp α := throw (.trap t)

def orTrap {α : Type} : Except Trap α → Comp α
  | .ok a => pure a
  | .error t => trap t

/-! ## Locals -/

/-- Replaces the value of the latest local of a name. -/
def assignLocal (name : String) (v : Value) : Frame → Option Frame
  | [] => none
  | (n, old) :: rest =>
    if n = name then some ((n, v) :: rest) else (assignLocal name v rest).map ((n, old) :: ·)

def readLocal (name : String) : Comp Value := do
  match (← get).current.lookup name with
  | some v => pure v
  | none => trap (.unboundLocal name)

def writeLocal (name : String) (v : Value) : Comp Unit := do
  match assignLocal name v (← get).current with
  | some current => modify fun m => { m with locals := current ++ m.suspended }
  | none => trap (.unboundLocal name)

def declareLocal (name : String) (v : Value) : Comp Unit :=
  modify fun m => { m with locals := (name, v) :: m.locals }

/-- Drops the locals declared since there were `size` of them. -/
def truncate (size : Nat) : Comp Unit :=
  modify fun m => { m with locals := m.locals.drop (m.locals.length - size) }

def localCount : Comp Nat := do return (← get).locals.length

/-- Runs a part of a method; what it declares is gone after it. -/
def enclosed {α : Type} (x : Comp α) : Comp α := do
  let size ← localCount
  let a ← x
  truncate size
  return a

def marker : Comp Nat := do return (← get).frame

/-- Starts a frame with these locals above those that there are. -/
def enter (params : Frame) : Comp Unit :=
  modify fun m => { m with locals := params ++ m.locals, frame := m.locals.length }

/-- Drops the locals of the running method and sets the marker back. -/
def leave (saved : Nat) : Comp Unit := do
  truncate (← marker)
  modify fun m => { m with frame := saved }

/-- Runs the body of a method in a frame of its own. -/
def framed {α : Type} (params : Frame) (body : Comp α) : Comp α := do
  let saved ← marker
  enter params
  let a ← body
  leave saved
  return a

/-- The parameters of a method with their values, the last parameter first. -/
def frameOf (m : Method) (args : List Value) : Frame :=
  ((m.params.map Param.name).zip args).reverse

/-! ## Fields -/

/-- The index of a field and what it is bound to. -/
def binding (c : Context) (name : String) : Comp (Nat × Bound) :=
  match c.descriptor.fieldIndex? name with
  | none => trap (.unknownField name)
  | some i =>
    match c.bound[i]? with
    | some b => pure (i, b)
    | none => trap (.unknownField name)

def readScalar (c : Context) (name : String) : Comp Value := do
  let (i, b) ← binding c name
  match (← get).scalars.lookup i with
  | some v => pure v
  | none =>
    match b with
    | .scalar v => pure v
    | _ => trap (.notScalar name)

def writeScalar (i : Nat) (v : Value) : Comp Unit :=
  modify fun m => { m with scalars := (i, v) :: m.scalars.filter (·.1 ≠ i) }

/-- The buffer an array field is bound to. -/
def arrayOf (c : Context) (name : String) : Comp BufferId := do
  match ← binding c name with
  | (_, .array id) => pure id
  | _ => trap (.notArray name)

/-- An index that is in bounds. -/
def checkIndex (name : String) (index : Value) (size : Nat) : Comp Nat :=
  let i := index.integer?.getD (-1)
  if 0 ≤ i.toInt && i.toInt < size then pure i.toInt.toNat
  else trap (.outOfBounds i name size)

def arraySize (c : Context) (name : String) : Comp Nat := do
  let id ← arrayOf c name
  match (← get).memory.buffers[id]? with
  | some b => pure b.size
  | none => trap (.notArray name)

def readElement (c : Context) (name : String) (i : Nat) : Comp Value := do
  let id ← arrayOf c name
  match (← get).memory.buffers[id]? with
  | some b =>
    match b.load? i with
    | some v => pure v
    | none => trap (.outOfBounds (.ofNat i) name b.size)
  | none => trap (.notArray name)

def writeElement (c : Context) (name : String) (i : Nat) (v : Value) : Comp Unit := do
  let id ← arrayOf c name
  modify fun m => { m with memory := m.memory.modifyBuffer id (·.store i v) }

/-- The length of an array or of a field's slots. -/
def lengthOf (c : Context) (name : String) : Comp Value := do
  let (_, b) ← binding c name
  let memory := (← get).memory
  match b with
  | .array id =>
    match memory.buffers[id]? with
    | some b => pure (.int (.ofNat b.size))
    | none => trap (.noLength name)
  | .slots id =>
    match memory.slots[id]? with
    | some s => pure (.int (.ofNat s.size))
    | none => trap (.noLength name)
  | .scalar _ => trap (.noLength name)

/-- Performs an atomic operation on a slot of a field. -/
def performAtomic (c : Context) (op : AtomicOp) (name : String) (index : Option Value)
    (operands : List Int64) : Comp Value := do
  match ← binding c name with
  | (_, .slots id) =>
    match (← get).memory.slots[id]? with
    | none => trap (.notAtomic name)
    | some s => do
      let i ← match index with
        | some v => checkIndex name v s.size
        | none => pure 0
      match s.perform? i op operands with
      | none => trap (.noSlot name i)
      | some (after, result) => do
        modify fun m => { m with memory := m.memory.modifySlots id fun _ => after }
        pure (Value.ofInteger s.width.scalar result)
  | _ => trap (.notAtomic name)

/-- Where a place is: its index has been evaluated. -/
inductive Location where
  | var (name : String)
  | field (index : Nat) (name : String)
  | element (array : String) (index : Nat)
  deriving DecidableEq, Repr

def readLocation (c : Context) : Location → Comp Value
  | .var name => readLocal name
  | .field _ name => readScalar c name
  | .element array i => readElement c array i

def writeLocation (c : Context) (v : Value) : Location → Comp Unit
  | .var name => writeLocal name v
  | .field i _ => writeScalar i v
  | .element array i => writeElement c array i v

end GridKernel.Eval
