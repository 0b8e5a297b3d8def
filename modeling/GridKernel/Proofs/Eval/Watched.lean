import GridKernel.Eval.Basic
import GridKernel.Proofs.Memory.Cells

/-!
# The moments of a run

The evaluator below is the evaluator of `Eval.Basic` which also writes down, one operation after the
other, how many invocations are active and which cells the operation accesses: work-items share the
elements of arrays and the slots of atomic fields. What it computes is proved to be the same in
`Proofs.Eval.Mirror`; the moments are what it adds.
-/

namespace GridKernel

inductive Access where
  | read (cell : Cell)
  | write (cell : Cell)
  deriving DecidableEq, Repr

namespace Access

def cell : Access → Cell
  | read c => c
  | write c => c

def isWrite : Access → Bool
  | read _ => false
  | write _ => true

end Access

namespace Eval

/-- An operation of an evaluation. -/
structure Moment where
  /-- The number of invocations that are active. -/
  active : Nat
  accesses : List Access

/-- A computation that tells its moments, given the number of active invocations. -/
def Watched (α : Type) := Nat → Machine → EStateM.Result Stop Machine α × List Moment

namespace Watched

variable {α β : Type}

/-- Performs an operation whose accesses depend on where it starts. -/
def observe (accesses : Machine → List Access) (x : Comp α) : Watched α :=
  fun active m => (x m, [⟨active, accesses m⟩])

/-- An operation that accesses no cell. -/
def lift (x : Comp α) : Watched α := observe (fun _ => []) x

def bind (x : Watched α) (f : α → Watched β) : Watched β := fun active m =>
  match x active m with
  | (.ok a m', before) => ((f a active m').1, before ++ (f a active m').2)
  | (.error stop m', before) => (.error stop m', before)

instance : Monad Watched where
  pure a := lift (pure a)
  bind := bind

instance : MonadLift Comp Watched := ⟨lift⟩

/-! ## Accesses -/

/-- What a name is bound to. -/
def bound? (c : Context) (name : String) : Option Bound :=
  (c.descriptor.fieldIndex? name).bind (c.bound[·]?)

/-- The cell of an element. -/
def elementCells (c : Context) (name : String) (i : Nat) : List Cell :=
  match bound? c name with
  | some (.array id) => [.element id i]
  | _ => []

/-- The index that an atomic operation is given, if it is in bounds. -/
def slotIndex? (index : Option Value) (size : Nat) : Option Nat :=
  match index with
  | none => some 0
  | some v =>
    let i := v.integer?.getD (-1)
    if 0 ≤ i.toInt && i.toInt < size then some i.toInt.toNat else none

/-- An operation reads its slot, and writes it unless it leaves the slot alone. -/
def slotAccesses (op : AtomicOp) (operands : List Int64) (id : SlotsId) (i : Nat) (s : SlotArray) :
    List Access :=
  match s.get? i with
  | none => []
  | some current =>
    .read (.slot id i) ::
      if (op.next current operands s.width).isSome then [.write (.slot id i)] else []

/-- The accesses of an atomic operation on a field. -/
def atomicAccesses (c : Context) (op : AtomicOp) (name : String) (index : Option Value)
    (operands : List Int64) (m : Machine) : List Access :=
  match bound? c name with
  | some (.slots id) =>
    match m.memory.slots[id]? with
    | none => []
    | some s => (slotIndex? index s.size).elim [] fun i => slotAccesses op operands id i s
  | _ => []

def readElement (c : Context) (name : String) (i : Nat) : Watched Value :=
  observe (fun _ => (elementCells c name i).map .read) (Eval.readElement c name i)

def writeElement (c : Context) (name : String) (i : Nat) (v : Value) : Watched Unit :=
  observe (fun _ => (elementCells c name i).map .write) (Eval.writeElement c name i v)

def performAtomic (c : Context) (op : AtomicOp) (name : String) (index : Option Value)
    (operands : List Int64) : Watched Value :=
  observe (atomicAccesses c op name index operands) (Eval.performAtomic c op name index operands)

def readLocation (c : Context) : Location → Watched Value
  | .var name => readLocal name
  | .field _ name => readScalar c name
  | .element array i => readElement c array i

def writeLocation (c : Context) (v : Value) : Location → Watched Unit
  | .var name => writeLocal name v
  | .field i _ => writeScalar i v
  | .element array i => writeElement c array i v

/-! ## Locals -/

def enclosed (x : Watched α) : Watched α := do
  let size ← localCount
  let a ← x
  truncate size
  return a

/-- One more invocation is active in the body. -/
def framed (params : Frame) (body : Watched α) : Watched α := do
  let saved ← marker
  enter params
  let a ← fun active => body (active + 1)
  leave saved
  return a

/-! ## Evaluation -/

mutual

def eval (c : Context) : Nat → Expr → Watched Value
  | 0, _ => exhausted
  | n + 1, e =>
    match e with
    | .literal v => pure v
    | .var name => readLocal name
    | .field name => readScalar c name
    | .element array index => do
      let i ← eval c n index
      let size ← arraySize c array
      let i ← checkIndex array i size
      readElement c array i
    | .length array => lengthOf c array
    | .binary .and lhs rhs => do
      let l ← eval c n lhs
      if ← truth l then
        let r ← eval c n rhs
        return .boolean (← truth r)
      else return .boolean false
    | .binary .or lhs rhs => do
      let l ← eval c n lhs
      if ← truth l then return .boolean true
      else
        let r ← eval c n rhs
        return .boolean (← truth r)
    | .binary op lhs rhs => do
      let l ← eval c n lhs
      let r ← eval c n rhs
      orTrap (binary op l r)
    | .unary op operand => do
      let v ← eval c n operand
      orTrap (unary op v)
    | .conditional cond thenValue elseValue => do
      let v ← eval c n cond
      if ← truth v then eval c n thenValue else eval c n elseValue
    | .cast type value _ => do
      let v ← eval c n value
      return v.cast type
    | .assign target none value => do
      let t ← resolve c n target
      let v ← eval c n value
      writeLocation c v t
      return v
    | .assign target (some op) value => do
      let t ← resolve c n target
      let old ← readLocation c t
      let v ← eval c n value
      let combined ← orTrap (binary op old v)
      writeLocation c (combined.cast old.type) t
      return combined.cast old.type
    | .step target op before => do
      let t ← resolve c n target
      let old ← readLocation c t
      writeLocation c (stepped op old) t
      return if before then stepped op old else old
    | .call method args => do
      match ← call c n method args with
      | some v => return v
      | none => trap (.voidValue method)
    | .atomic op slot args => do
      let index ← evalOption c n slot.index
      let operands ← evalOperands c n op args
      performAtomic c op slot.field index operands
    | .builtin func args => do
      let values ← evalAll c n args
      builtinValue c func values

def resolve (c : Context) : Nat → Place Expr → Watched Location
  | 0, _ => exhausted
  | n + 1, p =>
    match p with
    | .var name => return .var name
    | .field name => (do return .field (← binding c name).1 name : Comp Location)
    | .element array index => do
      let i ← eval c n index
      let size ← arraySize c array
      return .element array (← checkIndex array i size)

def evalOption (c : Context) : Nat → Option Expr → Watched (Option Value)
  | 0, _ => exhausted
  | _ + 1, none => return none
  | n + 1, some e => do return some (← eval c n e)

def evalAll (c : Context) : Nat → List Expr → Watched (List Value)
  | 0, _ => exhausted
  | _ + 1, [] => return []
  | n + 1, e :: rest => do
    let v ← eval c n e
    return v :: (← evalAll c n rest)

def evalOperands (c : Context) : Nat → AtomicOp → List Expr → Watched (List Int64)
  | 0, _, _ => exhausted
  | _ + 1, _, [] => return []
  | n + 1, op, e :: rest => do
    let v ← eval c n e
    let v ← operand op v
    return v :: (← evalOperands c n op rest)

def call (c : Context) : Nat → String → List Expr → Watched (Option Value)
  | 0, _, _ => exhausted
  | n + 1, name, args =>
    match c.descriptor.method? name with
    | none => trap (.unknownMethod name)
    | some m => do
      let values ← evalAll c n args
      invoke c n m values

def invoke (c : Context) : Nat → Method → List Value → Watched (Option Value)
  | 0, _, _ => exhausted
  | n + 1, m, args => do
    match ← framed (frameOf m args) (block c n m.body) with
    | .returned v => return v
    | _ => return none

def block (c : Context) : Nat → List Stmt → Watched Flow
  | 0, _ => exhausted
  | n + 1, body => enclosed (stmts c n body)

def stmts (c : Context) : Nat → List Stmt → Watched Flow
  | 0, _ => exhausted
  | _ + 1, [] => return .normal
  | n + 1, s :: rest => do
    match ← stmt c n s with
    | .normal => stmts c n rest
    | flow => return flow

def stmt (c : Context) : Nat → Stmt → Watched Flow
  | 0, _ => exhausted
  | n + 1, s =>
    match s with
    | .declare name type none => do
      declareLocal name (.zero type)
      return .normal
    | .declare name type (some init) => do
      let v ← eval c n init
      declareLocal name (v.cast type)
      return .normal
    | .expr (.call method args) => do
      let _ ← call c n method args
      return .normal
    | .expr e => do
      let _ ← eval c n e
      return .normal
    | .branch cond thenBody elseBody => do
      let v ← eval c n cond
      if ← truth v then block c n thenBody else block c n elseBody
    | .whileLoop cond body => whileLoop c n cond body
    | .doWhile body cond => doWhile c n body cond
    | .forLoop init cond update body => enclosed do
      inits c n init
      forLoop c n cond update body
    | .breakLoop => return .broke
    | .continueLoop => return .continued
    | .ret value => do return .returned (← evalOption c n value)
    | .block body => block c n body

def whileLoop (c : Context) : Nat → Expr → List Stmt → Watched Flow
  | 0, _, _ => exhausted
  | n + 1, cond, body => do
    let v ← eval c n cond
    if ← truth v then
      match ← block c n body with
      | .broke => return .normal
      | .returned v => return .returned v
      | _ => whileLoop c n cond body
    else return .normal

def doWhile (c : Context) : Nat → List Stmt → Expr → Watched Flow
  | 0, _, _ => exhausted
  | n + 1, body, cond => do
    match ← block c n body with
    | .broke => return .normal
    | .returned v => return .returned v
    | _ =>
      let v ← eval c n cond
      if ← truth v then doWhile c n body cond else return .normal

def inits (c : Context) : Nat → List Stmt → Watched Unit
  | 0, _ => exhausted
  | _ + 1, [] => return ()
  | n + 1, s :: rest => do
    let _ ← stmt c n s
    inits c n rest

def forLoop (c : Context) : Nat → Option Expr → List Expr → List Stmt → Watched Flow
  | 0, _, _, _ => exhausted
  | n + 1, cond, update, body => do
    let go ← match cond with
      | none => pure true
      | some e => do
        let v ← eval c n e
        truth v
    if go then
      match ← block c n body with
      | .broke => return .normal
      | .returned v => return .returned v
      | _ => do
        let _ ← evalAll c n update
        forLoop c n cond update body
    else return .normal

end

end Watched

/-- The moments of a work-item, in their order. -/
def moments (c : Context) (steps : Nat) (memory : Memory) : List Moment :=
  (Watched.invoke c steps c.descriptor.main [] 0 { memory := memory }).2

/-- The accesses of a work-item, in their order. -/
def trace (c : Context) (steps : Nat) (memory : Memory) : List Access :=
  (moments c steps memory).flatMap Moment.accesses

end Eval

end GridKernel
