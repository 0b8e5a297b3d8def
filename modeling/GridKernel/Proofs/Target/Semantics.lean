import GridKernel.Eval.Basic
import GridKernel.Target.Translate

/-!
# Meaning of target expressions

C leaves the order open in which the operands of an operator, a call or an assignment are
evaluated. Here a schedule decides it, and what holds for every schedule holds for every order.
Only a comma, the end of an expression statement, `&&`, `||`, `?:` and the entry of a call put
accesses in sequence. Two accesses to the same storage of which one is a write and that are not in
sequence are a conflict, which ends the evaluation, whatever order was chosen.

Integers wrap and shift counts are masked as in kernels, distinct fields are distinct storage, and a
call of a helper does what evaluating the method does.
-/

namespace GridKernel.Target

/-- A piece of storage. The elements of one array differ by their indices. -/
inductive Storage where
  | var (name : String)
  | temp (number : Nat)
  | field (name : String)
  | element (array : String) (index : Nat)
  deriving DecidableEq, Repr

/-- What an evaluation accesses. What happens inside of a call is in sequence with everything else
and does not count. -/
structure Accesses where
  reads : List Storage := []
  writes : List Storage := []
  /-- The writes that no sequence point follows within the evaluation. -/
  pending : List Storage := []
  deriving DecidableEq, Repr

namespace Accesses

def join (a b : Accesses) : Accesses :=
  ⟨a.reads ++ b.reads, a.writes ++ b.writes, a.pending ++ b.pending⟩

/-- The accesses with a sequence point after them. -/
def settled (a : Accesses) : Accesses := { a with pending := [] }

def reading (a : Accesses) (st : Storage) : Accesses := { a with reads := st :: a.reads }

def writing (a : Accesses) (st : Storage) : Accesses :=
  { a with writes := st :: a.writes, pending := st :: a.pending }

/-- Neither evaluation writes what the other one accesses. -/
def Apart (a b : Accesses) : Prop :=
  (∀ st ∈ a.writes, st ∉ b.reads ∧ st ∉ b.writes) ∧ ∀ st ∈ b.writes, st ∉ a.reads

instance (a b : Accesses) : Decidable (Apart a b) := inferInstanceAs (Decidable (_ ∧ _))

end Accesses

/-- The number of locals of a frame that were declared before the latest one of a name. -/
def position? (name : String) : Eval.Frame → Option Nat
  | [] => none
  | (n, _) :: rest => if n = name then some rest.length else position? name rest

/-- The state of a work-item in the target program. -/
structure State where
  machine : Eval.Machine
  /-- The temporaries that hold a value. -/
  temps : Nat → Option Value := fun _ => none
  /-- The locals that hold no value, by the number of locals declared before them. -/
  unset : List Nat := []
  /-- Which of the operands left is evaluated next, each time there is a choice. -/
  schedule : List Nat := []

namespace State

/-- The number of locals declared before the latest one of a name that is in sight. -/
def place? (s : State) (name : String) : Option Nat :=
  (position? name s.machine.current).map (s.machine.frame + ·)

/-- Whether the latest local of a name holds no value. -/
def isUnset (s : State) (name : String) : Bool := (s.place? name).any fun i => s.unset.contains i

/-- The latest local of a name holds a value from now on. -/
def markSet (name : String) (s : State) : State :=
  { s with unset := s.unset.filter fun i => s.place? name ≠ some i }

end State

/-- Why an evaluation ends early. -/
inductive Fault where
  /-- Conflicting accesses are not in sequence. -/
  | conflict
  /-- A local is read that holds no value. -/
  | indeterminate
  /-- The expression has no meaning. -/
  | undefined
  | stopped (reason : Eval.Stop)
  deriving DecidableEq

abbrev Exec := EStateM Fault State

section

variable {α β : Type}

def onMachine (x : Eval.Comp α) : Exec α := fun s =>
  match x s.machine with
  | .ok a m => .ok a { s with machine := m }
  | .error reason m => .error (.stopped reason) { s with machine := m }

def orUndefined : Option α → Exec α
  | some a => pure a
  | none => throw .undefined

/-! ## Order -/

/-- The next number of the schedule; zero when it has ended. -/
def nextChoice : Exec Nat := do
  let s ← get
  set { s with schedule := s.schedule.tail }
  return s.schedule.headD 0

/-- Runs `n` computations in the order that the schedule gives. The results are in the order of
the computations. -/
def anyOrder : Nat → List (Exec α) → Exec (List α)
  | 0, _ => return []
  | n + 1, xs => do
    let i := (← nextChoice) % (n + 1)
    let x ← orUndefined xs[i]?
    let a ← x
    let others ← anyOrder n (xs.eraseIdx i)
    return others.insertIdx i a

/-- Operands of one call. -/
def unsequenced (xs : List (Exec (α × Accesses))) : Exec (List α × Accesses) := do
  let results ← anyOrder xs.length xs
  if (results.map Prod.snd).Pairwise Accesses.Apart then
    return (results.map Prod.fst, (results.map Prod.snd).foldr Accesses.join {})
  else throw .conflict

def joined (x : α × Accesses) (y : β × Accesses) : Exec ((α × β) × Accesses) :=
  if x.2.Apart y.2 then return ((x.1, y.1), x.2.join y.2) else throw .conflict

/-- Two operands. -/
def both (x : Exec (α × Accesses)) (y : Exec (β × Accesses)) : Exec ((α × β) × Accesses) := do
  if (← nextChoice) % 2 = 0 then do
    let a ← x
    let b ← y
    joined a b
  else do
    let b ← y
    let a ← x
    joined a b

end

/-! ## Storage -/

section

variable (c : Eval.Context) (types : Temps)

def read : Storage → Exec Value
  | .var name => do
    if (← get).isUnset name then throw .indeterminate
    else onMachine (Eval.readLocal name)
  | .temp n => do orUndefined ((← get).temps n)
  | .field name => onMachine (Eval.readScalar c name)
  | .element array i => onMachine (Eval.readElement c array i)

def write (v : Value) : Storage → Exec Unit
  | .var name => do
    onMachine (Eval.writeLocal name v)
    modify (·.markSet name)
  | .temp n => modify fun s => { s with temps := fun k => if k = n then some v else s.temps k }
  | .field name => onMachine do
    let (i, _) ← Eval.binding c name
    Eval.writeScalar i v
  | .element array i => onMachine (Eval.writeElement c array i v)

/-- The type that a store converts to. -/
def declaredType : Storage → Exec ScalarType
  | .var name => do
    let v ← orUndefined ((← get).machine.current.lookup name)
    return v.type
  | .temp n => orUndefined types[n]?
  | .field name => orUndefined ((c.descriptor.field? name).bind Field.scalarType?)
  | .element array _ => orUndefined ((c.descriptor.field? array).bind Field.scalarType?)

/-- The element that an index stands for. -/
def elementAt (array : String) (index : Value) : Exec Storage := onMachine do
  return .element array (← Eval.checkIndex array index (← Eval.arraySize c array))

/-- Reads storage after the accesses that were needed to find it. -/
def loadFrom (st : Storage) (acc : Accesses) : Exec (Value × Accesses) := do
  if st ∈ acc.pending then throw .conflict
  else return (← read c st, acc.reading st)

/-- Stores a value after the accesses that were needed to find the storage and the value. -/
def storeTo (st : Storage) (v : Value) (acc : Accesses) : Exec (Value × Accesses) := do
  if st ∈ acc.pending then throw .conflict
  else do
    let v := v.cast (← declaredType c types st)
    write c v st
    return (v, acc.writing st)

end

/-! ## Operators and functions -/

/-- The type in which an operator combines operands of two numeric types. -/
def commonType (a b : ScalarType) : ScalarType :=
  if a = .double || b = .double then .double
  else if a = .float || b = .float then .float
  else if a = .long || b = .long then .long
  else .int

/-- An operator of C: numeric operands are converted to a common type, and shifts keep that of
their left operand. -/
def apply (op : BinaryOp) (l r : Value) : Except Trap Value :=
  if op.isShift then Eval.binary op l r
  else match l, r with
    | .boolean a, .boolean b => Eval.booleanOp op a b
    | l, r =>
      let t := commonType l.type r.type
      Eval.binary op (l.cast t) (r.cast t)

/-- The functions of the library that work-items call by name. -/
def libraryFunction (name : String) (args : List Value) : Except Trap Value :=
  if name = "fmod" then
    match args with
    | [a, b] => Eval.binary .rem a b
    | _ => .error .notFloatingPair
  else if name = "fabs" then Eval.math .abs args
  else if name = "fmin" then Eval.math .min args
  else if name = "fmax" then Eval.math .max args
  else match Builtin.ofName? name with
    | some f => Eval.math f args
    | none => .error .notNumeric

/-- The operation that the atomic function for `op` carries out. -/
def performed : AtomicOp → AtomicOp
  | .set => .xchg
  | .get => .or
  | op => op

section

variable (c : Eval.Context) (steps : Nat)

def atomicFunction (op : AtomicOp) (w : SlotWidth) (field : String) (index : Option Value)
    (args : List Value) : Exec Value :=
  if (c.descriptor.field? field).bind Field.slotWidth? = some w then do
    let operands ← onMachine (args.mapM (Eval.operand op))
    onMachine (Eval.performAtomic c (performed op) field index operands)
  else throw .undefined

def function : Callee → List Value → Exec Value
  | .helper method, args => do
    let m ← orUndefined (c.descriptor.method? method)
    orUndefined (← onMachine (Eval.invoke c steps m args))
  | .passId, [] => return .int c.item.passId
  | .convert w, [v] => return v.cast w.scalar
  | .query func, args => onMachine (Eval.builtinValue c func args)
  | .math name, args => onMachine (Eval.orTrap (libraryFunction name args))
  | _, _ => throw .undefined

end

/-! ## Expressions -/

section

variable (c : Eval.Context) (steps : Nat) (types : Temps)

mutual

/-- Evaluates an expression. Helpers are given `steps` steps, and `types` are the types of the
temporaries. -/
def exec : Expr → Exec (Value × Accesses)
  | .literal v => return (v, {})
  | .var name => loadFrom c (.var name) {}
  | .temp n => loadFrom c (.temp n) {}
  | .member name => loadFrom c (.field name) {}
  | .lengthOf array => do return (← onMachine (Eval.lengthOf c array), {})
  | .element array index => do
    let (i, acc) ← exec index
    loadFrom c (← elementAt c array i) acc
  | .addressOf _ _ => throw .undefined
  | .paren e => exec e
  | .binary op lhs rhs =>
    if op.isShortCircuit then do
      let (l, acc) ← exec lhs
      if (← onMachine (Eval.truth l)) = (op = .or) then return (l, acc.settled)
      else do
        let (r, acc') ← exec rhs
        return (.boolean (← onMachine (Eval.truth r)), acc.settled.join acc')
    else do
      let ((l, r), acc) ← both (exec lhs) (exec rhs)
      return (← onMachine (Eval.orTrap (apply op l r)), acc)
  | .shiftUnsigned type lhs rhs => do
    let ((l, r), acc) ← both (exec lhs) (exec rhs)
    return (← onMachine (Eval.orTrap (apply .ushr (l.cast type) r)), acc)
  | .unary op operand => do
    let (v, acc) ← exec operand
    return (← onMachine (Eval.orTrap (Eval.unary op v)), acc)
  | .conditional cond thenValue elseValue => do
    let (b, acc) ← exec cond
    if ← onMachine (Eval.truth b) then do
      let (v, acc') ← exec thenValue
      return (v, acc.settled.join acc')
    else do
      let (v, acc') ← exec elseValue
      return (v, acc.settled.join acc')
  | .cast type value => do
    let (v, acc) ← exec value
    if v.type.isFloating && type.isIntegral then throw .undefined
    else return (v.cast type, acc)
  | .call callee args => do
    match callee, args with
    | .atomic op w, .member field :: rest => do
      let (operands, acc) ← unsequenced (execs rest)
      return (← atomicFunction c op w field none operands, acc.settled)
    | .atomic op w, .addressOf field index :: rest => do
      match ← unsequenced (exec index :: execs rest) with
      | (i :: operands, acc) =>
        return (← atomicFunction c op w field (some i) operands, acc.settled)
      | _ => throw .undefined
    | callee, args => do
      let (values, acc) ← unsequenced (execs args)
      return (← function c steps callee values, acc.settled)
  | .assign target value => do
    let ((st, v), acc) ← both (locate target) (exec value)
    storeTo c types st v acc
  | .compound op target value => do
    let (((st, old), v), acc) ← both (fetch target) (exec value)
    storeTo c types st (← onMachine (Eval.orTrap (apply op old v))) acc
  | .step op before target => do
    let ((st, old), acc) ← fetch target
    let new ← onMachine (Eval.orTrap (apply op.binary old (.int 1)))
    let (new, acc) ← storeTo c types st new acc
    return (if before then new else old, acc)
  | .comma first value => do
    let acc ← execInOrder first
    let (v, acc') ← exec value
    return (v, acc.settled.join acc')

/-- The storage that an expression on the left of an assignment stands for. -/
def locate : Expr → Exec (Storage × Accesses)
  | .var name => return (.var name, {})
  | .temp n => return (.temp n, {})
  | .member name => return (.field name, {})
  | .element array index => do
    let (i, acc) ← exec index
    return (← elementAt c array i, acc)
  | _ => throw .undefined

/-- The storage of an expression together with what it holds. -/
def fetch : Expr → Exec ((Storage × Value) × Accesses)
  | .element array index => do
    let (i, acc) ← exec index
    let st ← elementAt c array i
    let (v, acc) ← loadFrom c st acc
    return ((st, v), acc)
  | .var name => do
    let (v, acc) ← loadFrom c (.var name) {}
    return ((.var name, v), acc)
  | .member name => do
    let (v, acc) ← loadFrom c (.field name) {}
    return ((.field name, v), acc)
  | _ => throw .undefined

def execs : List Expr → List (Exec (Value × Accesses))
  | [] => []
  | e :: rest => exec e :: execs rest

/-- Evaluates expressions one after the other, each to its end. -/
def execInOrder : List Expr → Exec Accesses
  | [] => return {}
  | e :: rest => do
    let (_, acc) ← exec e
    return acc.join (← execInOrder rest)

end

/-- Evaluates a translated expression: what runs before it, and then its value. -/
def Emitted.run (e : Emitted) : Exec Value := do
  let _ ← execInOrder c steps types e.pre
  let (v, _) ← exec c steps types e.value
  return v

end

end GridKernel.Target
