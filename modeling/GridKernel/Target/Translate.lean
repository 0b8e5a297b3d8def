import GridKernel.Target.Syntax
import GridKernel.Typing.Expr

/-!
# Expressions made explicit in order

Kernel expressions evaluate their operands from left to right, while C leaves that order open. An
expression is translated to a list of expressions to be run first, in order, and a value. Where
an operand has effects, every operand before the last is kept in a temporary.
-/

namespace GridKernel.Target

/-- A translated expression: what runs before it, its value, and whether the value can be an
operand without parentheses. -/
structure Emitted where
  pre : List Expr
  value : Expr
  simple : Bool

namespace Emitted

/-- The value as an operand. -/
def operand (e : Emitted) : Expr := if e.simple then e.value else .paren e.value

/-- A single expression that runs everything in order. -/
def inline (e : Emitted) : Expr := if e.pre.isEmpty then e.value else .comma e.pre e.value

/-- A single expression that runs everything in order, as an operand. -/
def inlineOperand (e : Emitted) : Expr := if e.pre.isEmpty then e.operand else e.inline

end Emitted

/-- The types of the temporaries allocated so far. -/
abbrev Temps := List ScalarType

abbrev Emit := StateT Temps (Except TypeFault)

/-- Allocates a temporary. -/
def fresh (type : ScalarType) : Emit Expr := do
  let temps ← get
  set (temps ++ [type])
  return .temp temps.length

def typed {α : Type} (r : Except TypeFault α) : Emit α := fun temps => r.map fun a => (a, temps)

/-- Whether two places may be the same storage. -/
def sameStorage : Place GridKernel.Expr → Place GridKernel.Expr → Bool
  | .var a, .var b => a == b
  | .field a, .field b => a == b
  | .element a _, .element b _ => a == b
  | _, _ => false

/-- Whether evaluating an expression assigns to a place that may be the target's storage. -/
def assigns (target : Place GridKernel.Expr) (e : GridKernel.Expr) : Bool :=
  e.nodes.any fun
    | .assign place _ _ => sameStorage target place
    | .step place _ _ => sameStorage target place
    | _ => false

/-- Whether operands must be kept in temporaries: one has effects, and a literal's evaluation
cannot be told from another's. -/
def hazard (operands : List GridKernel.Expr) : Bool :=
  operands.any GridKernel.Expr.hasEffects
    && 2 ≤ (operands.filter fun e => !e.isLiteral).length

/-- Applies an operator to translated operands of type `t`. -/
def combine (op : BinaryOp) (t : ScalarType) (l r : Expr) (pre : List Expr) : Emitted :=
  match op with
  | .rem => if t.isFloating then ⟨pre, .call (.math "fmod") [l, r], true⟩
    else ⟨pre, .binary .rem l r, false⟩
  | .ushr => ⟨pre, .shiftUnsigned t l r, false⟩
  | op => ⟨pre, .binary op l r, false⟩

/-- Whether C's own compound assignment means the same. -/
def isNativeCompound (op : BinaryOp) (t : ScalarType) : Bool :=
  !(op = .ushr || (op = .rem && t.isFloating))

/-- Conversion; from floating point to an integer it saturates, by way of `int` for narrow
types. -/
def castTo (source type : ScalarType) (e : Emitted) : Emitted :=
  if source.isFloating && type.isIntegral then
    match type with
    | .long => ⟨e.pre, .call (.convert .long) [e.value], true⟩
    | .int => ⟨e.pre, .call (.convert .int) [e.value], true⟩
    | type => ⟨e.pre, .cast type (.call (.convert .int) [e.value]), false⟩
  else ⟨e.pre, .cast type e.operand, false⟩

/-- A built-in function, given the type of its first argument. -/
def builtin (func : Builtin) (t : Option ScalarType) (args pre : List Expr) : Emitted :=
  let math (name : String) : Emitted := ⟨pre, .call (.math name) args, true⟩
  let floating := t.elim false ScalarType.isFloating
  match func with
  | .passId => ⟨pre, .call .passId [], true⟩
  | .abs =>
    if floating then math "fabs"
    else ⟨pre, .cast (t.getD .int) (.call (.math "abs") args), false⟩
  | .min => math (if floating then "fmin" else "min")
  | .max => math (if floating then "fmax" else "max")
  | f =>
    if f.isQuery then ⟨pre, .cast .int (.call (.query f) args), false⟩ else math f.name

/-- An operand, kept in a temporary if asked to. -/
def keep (d : Descriptor) (s : Scope) (hoist : Bool) (e : GridKernel.Expr)
    (translated : Emit Emitted) : Emit Emitted := do
  let r ← translated
  if hoist then do
    let t ← fresh (← typed (Typing.valueType d s e))
    return ⟨r.pre ++ [.assign t r.operand], t, true⟩
  else return r

/-- Operands from left to right; every one that is neither last nor a literal is kept when there
is a hazard. -/
def inOrder (d : Descriptor) (s : Scope) (hoist : Bool) :
    List (GridKernel.Expr × Emit Emitted) → Emit (List Expr × List Expr)
  | [] => return ([], [])
  | [(_, translated)] => do
    let r ← translated
    return (r.pre, [r.value])
  | (e, translated) :: rest => do
    let r ← keep d s (hoist && !e.isLiteral) e translated
    let (pre, values) ← inOrder d s hoist rest
    return (r.pre ++ pre, r.value :: values)

def isNegative (v : Value) : Bool := Text.startsWith "-" v.clText

/-- An assignment whose value is translated already. The value is kept if evaluating it assigns
to the target too. -/
def store (d : Descriptor) (s : Scope) (conflict : Bool) (value : GridKernel.Expr)
    (pre : List Expr) (target v : Expr) : Emit Emitted := do
  if conflict then do
    let t ← fresh (← typed (Typing.valueType d s value))
    return ⟨pre ++ [.assign t v], .assign target t, false⟩
  else return ⟨pre, .assign target v, false⟩

/-- A compound assignment to a translated target. If the value has effects the target is read
first, then the value is evaluated, and then the result is stored. -/
def update (d : Descriptor) (s : Scope) (op : BinaryOp) (t : ScalarType)
    (value : GridKernel.Expr) (translated : Emit Emitted) (pre : List Expr) (target : Expr) :
    Emit Emitted := do
  if value.hasEffects then do
    let old ← fresh t
    let type ← typed (Typing.valueType d s value)
    let r ← translated
    let new ← fresh type
    let result := combine op t old new []
    return ⟨pre ++ [.assign old target] ++ r.pre ++ [.assign new r.operand],
      .assign target result.value, false⟩
  else do
    let r ← translated
    if isNativeCompound op t then
      return ⟨pre ++ r.pre, .compound op target r.operand, false⟩
    else
      return ⟨pre ++ r.pre, .assign target (combine op t target r.operand []).value, false⟩

/-- An increment of an array element whose index has effects: the index is evaluated once. -/
def stepElement (op : StepOp) (before : Bool) (type : ScalarType) (array : String)
    (index : Emitted) : Emit Emitted := do
  let i ← fresh .int
  let pre := index.pre ++ [.assign i index.operand]
  let slot := Expr.element array i
  let one := Expr.literal (.int 1)
  if before then return ⟨pre, .assign slot (.binary op.binary slot one), false⟩
  else do
    let old ← fresh type
    return ⟨pre ++ [.assign old slot, .assign slot (.binary op.binary old one)], old, true⟩

/-- An atomic operation on a translated slot. A store is an exchange whose result is replaced by
what was stored, and a read is an `or` with zero. -/
def atomicCall (op : AtomicOp) (w : SlotWidth) (pointer : Expr) (args pre : List Expr) :
    Emit Emitted := do
  match op, args with
  | .set, value :: _ => do
    let t ← fresh w.scalar
    return ⟨pre ++ [.assign t value, .call (.atomic op w) [pointer, t]], t, true⟩
  | .get, _ => return ⟨pre, .call (.atomic op w) [pointer, .literal (Value.zero w.scalar)], true⟩
  | op, args => return ⟨pre, .call (.atomic op w) (pointer :: args), true⟩

mutual

def expr (d : Descriptor) (s : Scope) : GridKernel.Expr → Emit Emitted
  | .literal v => return ⟨[], .literal v, !isNegative v⟩
  | .var name => return ⟨[], .var name, true⟩
  | .field name => return ⟨[], .member name, true⟩
  | .element array index => do
    let i ← expr d s index
    return ⟨i.pre, .element array i.value, true⟩
  | .length array => return ⟨[], .lengthOf array, true⟩
  | .binary op lhs rhs =>
    if op.isShortCircuit then do
      let l ← expr d s lhs
      let r ← expr d s rhs
      return ⟨[], .binary op l.inlineOperand r.inlineOperand, false⟩
    else do
      let t ← typed (Typing.valueType d s lhs)
      let l ← keep d s (hazard [lhs, rhs] && !lhs.isLiteral) lhs (expr d s lhs)
      let r ← expr d s rhs
      return combine op t l.operand r.operand (l.pre ++ r.pre)
  | .unary op operand => do
    let e ← expr d s operand
    return ⟨e.pre, .unary op e.operand, false⟩
  | .conditional cond thenValue elseValue => do
    let c ← expr d s cond
    let t ← expr d s thenValue
    let e ← expr d s elseValue
    return ⟨[], .conditional c.inlineOperand t.inlineOperand e.inlineOperand, false⟩
  | .cast type value _ => do
    let source ← typed (Typing.valueType d s value)
    let e ← expr d s value
    return castTo source type e
  | .assign target none value => assign d s value (assigns target value) (expr d s value) target
  | .assign target (some op) value => do
    let t ← typed (Typing.placeType d s target)
    let (pre, place) ← place d s value.hasEffects target
    update d s op t value (expr d s value) pre place
  | .step target op before => step d s op before target
  | .call method args => do
    let (pre, values) ← inOrder d s (hazard args) (operands d s args)
    return ⟨pre, .call (.helper method) values, true⟩
  | .atomic op slot args => do
    let (_, w) ← typed (Typing.slotWidth d op slot.field)
    let (pre, pointer, values) ← slotOperands d s args (operands d s args) slot
    atomicCall op w pointer values pre
  | .builtin func args => do
    let t ← match args with
      | [] => pure none
      | e :: _ => do pure (some (← typed (Typing.valueType d s e)))
    let (pre, values) ← inOrder d s (hazard args) (operands d s args)
    return builtin func t values pre

/-- A plain assignment of a value to a place. -/
def assign (d : Descriptor) (s : Scope) (value : GridKernel.Expr) (conflict : Bool)
    (translated : Emit Emitted) : Place GridKernel.Expr → Emit Emitted
  | .var name => do
    let v ← translated
    store d s conflict value v.pre (.var name) v.value
  | .field name => do
    let v ← translated
    store d s conflict value v.pre (.member name) v.value
  | .element array index => do
    let i ← keep d s (hazard [index, value] && !index.isLiteral) index (expr d s index)
    let v ← translated
    store d s conflict value (i.pre ++ v.pre) (.element array i.value) v.value

/-- The target of a compound assignment. Its index is evaluated once, and before the value. -/
def place (d : Descriptor) (s : Scope) (effects : Bool) :
    Place GridKernel.Expr → Emit (List Expr × Expr)
  | .var name => return ([], .var name)
  | .field name => return ([], .member name)
  | .element array index => do
    let i ← expr d s index
    if index.hasEffects || (effects && !index.isLiteral) then do
      let t ← fresh .int
      return (i.pre ++ [.assign t i.operand], .element array t)
    else return (i.pre, .element array i.value)

def step (d : Descriptor) (s : Scope) (op : StepOp) (before : Bool) :
    Place GridKernel.Expr → Emit Emitted
  | .var name => return ⟨[], .step op before (.var name), false⟩
  | .field name => return ⟨[], .step op before (.member name), false⟩
  | .element array index => do
    let i ← expr d s index
    if index.hasEffects then do
      stepElement op before (← typed (Typing.arrayType d array)) array i
    else return ⟨i.pre, .step op before (.element array i.value), false⟩

/-- The slot of an atomic operation as a pointer, and its operands. -/
def slotOperands (d : Descriptor) (s : Scope) (args : List GridKernel.Expr)
    (translated : List (GridKernel.Expr × Emit Emitted)) :
    SlotRef GridKernel.Expr → Emit (List Expr × Expr × List Expr)
  | ⟨name, index⟩ => slotIndex d s args translated name index

def slotIndex (d : Descriptor) (s : Scope) (args : List GridKernel.Expr)
    (translated : List (GridKernel.Expr × Emit Emitted)) (name : String) :
    Option GridKernel.Expr → Emit (List Expr × Expr × List Expr)
  | none => do
    let (pre, values) ← inOrder d s (hazard args) translated
    return (pre, .member name, values)
  | some index => do
    let hoist := hazard (index :: args)
    let i ← keep d s (hoist && !args.isEmpty && !index.isLiteral) index (expr d s index)
    let (pre, values) ← inOrder d s hoist translated
    return (i.pre ++ pre, .addressOf name i.value, values)

/-- The translations of operands, each to be run in its turn. -/
def operands (d : Descriptor) (s : Scope) :
    List GridKernel.Expr → List (GridKernel.Expr × Emit Emitted)
  | [] => []
  | e :: rest => (e, expr d s e) :: operands d s rest

end

end GridKernel.Target
