import GridKernel.Kernel.Descriptor
import GridKernel.Typing.Fault
import GridKernel.Typing.Scope

/-!
# Types of expressions

`typeOf` gives an expression's type, and no type for a call of a void method. Operands are looked
at in the order in which they are evaluated, and the first fault is the one reported.
-/

namespace GridKernel.Typing

def field (d : Descriptor) (name : String) : Except TypeFault Field :=
  match d.field? name with
  | some f => .ok f
  | none => .error (.unknownField name)

/-- The element type of an array field without slots. -/
def arrayType (d : Descriptor) (name : String) : Except TypeFault ScalarType := do
  let f ← field d name
  match f.element, f.isArray with
  | .atomic _, _ => .error (.atomicAccess name)
  | .scalar t, true => .ok t
  | .scalar _, false => .error (.notArray name)

/-- The type of a scalar field without slots. -/
def scalarType (d : Descriptor) (name : String) : Except TypeFault ScalarType := do
  let f ← field d name
  match f.element, f.isArray with
  | .atomic _, _ => .error (.atomicAccess name)
  | .scalar t, false => .ok t
  | .scalar _, true => .error (.arrayAsValue name)

def localType (s : Scope) (name : String) : Except TypeFault ScalarType :=
  match s.lookup? name with
  | some t => .ok t
  | none => .error (.undeclaredLocal name)

/-- The types of an operator's operands decide whether it is defined and what it yields. -/
def binaryType (op : BinaryOp) (l r : ScalarType) : Except TypeFault ScalarType :=
  let undefined : Except TypeFault ScalarType := .error (.binaryUndefined op l r)
  if op.isShift then
    match l, r with
    | .int, .int | .int, .long | .long, .int | .long, .long => .ok l
    | _, _ => undefined
  else if l ≠ r then undefined
  else match op with
    | .and | .or => if l = .boolean then .ok .boolean else undefined
    | .eq | .ne => if l = .boolean || l.isPromoted then .ok .boolean else undefined
    | .lt | .le | .gt | .ge => if l.isPromoted then .ok .boolean else undefined
    | .bitAnd | .bitOr | .bitXor =>
      if l = .boolean || l = .int || l = .long then .ok l else undefined
    | _ => if l.isPromoted then .ok l else undefined

def unaryType (op : UnaryOp) (t : ScalarType) : Except TypeFault ScalarType :=
  let defined : Bool := match op with
    | .neg => t.isPromoted
    | .not => t = .boolean
    | .bitNot => t = .int || t = .long
  if defined then .ok t else .error (.unaryUndefined op t)

def castType (type source : ScalarType) : Except TypeFault ScalarType :=
  if source ≠ type && (source = .boolean || type = .boolean) then .error (.badCast source type)
  else .ok type

/-- The type of a built-in function applied to arguments of these types. -/
def builtinType (func : Builtin) (types : List ScalarType) : Except TypeFault ScalarType :=
  let undefined : Except TypeFault ScalarType := .error (.builtinUndefined func types)
  match func, types with
  | .passId, _ => .ok .int
  | .abs, [t] => if t.isPromoted then .ok t else undefined
  | .min, [t, u] | .max, [t, u] => if t = u && t.isPromoted then .ok t else undefined
  | .pow, [t, u] => if t = u && t.isFloating then .ok t else undefined
  | f, [t] =>
    if f.isQuery then if t = .int then .ok .int else undefined
    else if t.isFloating then .ok t else undefined
  | _, _ => undefined

/-- The type of an assignment to a place of type `t` from a value of type `v`. -/
def assignType (target : Place Expr) (op : Option BinaryOp) (t v : ScalarType) :
    Except TypeFault ScalarType :=
  match op with
  | none => if v = t then .ok t else .error (.badAssign v t target.text)
  | some op =>
    if op.isComparison || op.isShortCircuit then .error (.notAssignment op)
    else do
      let result ← binaryType op t v
      if result = t then .ok t else .error (.changesType op target.text)

def stepType (target : Place Expr) (op : StepOp) (t : ScalarType) :
    Except TypeFault ScalarType :=
  if t.isNumeric then .ok t else .error (.badStep op t target.text)

/-- The method a call names, which is not the entry point and takes this many arguments. -/
def callee (d : Descriptor) (name : String) (given : Nat) : Except TypeFault Method :=
  match d.method? name with
  | none => .error (.undeclaredMethod name)
  | some m =>
    if m.name = d.entry then .error (.entryCalled name)
    else if given ≠ m.params.length then .error (.callArity name m.params.length given)
    else .ok m

/-- The width of the slots an atomic operation is on. -/
def slotWidth (d : Descriptor) (op : AtomicOp) (name : String) :
    Except TypeFault (Field × SlotWidth) := do
  let f ← field d name
  match f.slotWidth? with
  | some w => .ok (f, w)
  | none => .error (.plainSlot op name)

/-- The type of an expression that is used as a value. -/
def asValue (e : Expr) (type : Except TypeFault (Option ScalarType)) :
    Except TypeFault ScalarType := do
  match ← type with
  | some t => .ok t
  | none => .error (.voidValue e.text)

def expectType (role : TypeRole) (want : ScalarType) (type : Except TypeFault ScalarType) :
    Except TypeFault Unit := do
  let found ← type
  if found = want then .ok () else .error (.wrongType role want found)

mutual

/-- The type of an expression; none for a call of a void method. -/
def typeOf (d : Descriptor) (s : Scope) : Expr → Except TypeFault (Option ScalarType)
  | .literal v => .ok (some v.type)
  | .var name => return some (← localType s name)
  | .field name => return some (← scalarType d name)
  | .element array index => do
    expectType .index .int (asValue index (typeOf d s index))
    return some (← arrayType d array)
  | .length name => do
    let f ← field d name
    if f.isArray then .ok (some .int) else .error (.lengthOfScalar name)
  | .binary op lhs rhs => do
    let l ← asValue lhs (typeOf d s lhs)
    let r ← asValue rhs (typeOf d s rhs)
    return some (← binaryType op l r)
  | .unary op operand => do
    let t ← asValue operand (typeOf d s operand)
    return some (← unaryType op t)
  | .conditional cond thenValue elseValue => do
    expectType .condition .boolean (asValue cond (typeOf d s cond))
    let a ← asValue thenValue (typeOf d s thenValue)
    let b ← asValue elseValue (typeOf d s elseValue)
    if a = b then .ok (some a) else .error (.branchesDisagree a b)
  | .cast type value _ => do
    let source ← asValue value (typeOf d s value)
    return some (← castType type source)
  | .assign target op value => do
    let t ← placeType d s target
    let v ← asValue value (typeOf d s value)
    return some (← assignType target op t v)
  | .step target op _ => do
    let t ← placeType d s target
    return some (← stepType target op t)
  | .call name args => do
    let m ← callee d name args.length
    checkArgs d s m.params args
    return m.ret
  | .atomic op slot args => do
    let (f, w) ← slotWidth d op slot.field
    checkSlot d s f.isArray slot
    if args.length ≠ op.arity then .error (.atomicArity op args.length)
    else do
      checkOperands d s op w args
      return some w.scalar
  | .builtin func args => do
    if args.length ≠ func.arity then .error (.builtinArity func args.length)
    else do
      let types ← valueTypes d s args
      return some (← builtinType func types)

/-- The type of a place. -/
def placeType (d : Descriptor) (s : Scope) : Place Expr → Except TypeFault ScalarType
  | .var name => localType s name
  | .field name => scalarType d name
  | .element array index => do
    expectType .index .int (asValue index (typeOf d s index))
    arrayType d array

/-- A slot of an array is named with an index, a single slot without one. -/
def checkSlot (d : Descriptor) (s : Scope) (isArray : Bool) :
    SlotRef Expr → Except TypeFault Unit
  | ⟨name, index⟩ => checkSlotIndex d s isArray name index

def checkSlotIndex (d : Descriptor) (s : Scope) (isArray : Bool) (name : String) :
    Option Expr → Except TypeFault Unit
  | some index =>
    if isArray then expectType .index .int (asValue index (typeOf d s index))
    else .error (.indexedSlot name)
  | none => if isArray then .error (.unindexedSlots name) else .ok ()

/-- Each argument has the type of its parameter. -/
def checkArgs (d : Descriptor) (s : Scope) : List Param → List Expr → Except TypeFault Unit
  | p :: params, e :: rest => do
    expectType (.argument p.name) p.type (asValue e (typeOf d s e))
    checkArgs d s params rest
  | _, _ => .ok ()

/-- Each operand of an atomic operation has the type of the slot. -/
def checkOperands (d : Descriptor) (s : Scope) (op : AtomicOp) (w : SlotWidth) :
    List Expr → Except TypeFault Unit
  | [] => .ok ()
  | e :: rest => do
    let t ← asValue e (typeOf d s e)
    if t = w.scalar then checkOperands d s op w rest
    else .error (.atomicOperand op w t)

def valueTypes (d : Descriptor) (s : Scope) : List Expr → Except TypeFault (List ScalarType)
  | [] => .ok []
  | e :: rest => do
    let t ← asValue e (typeOf d s e)
    return t :: (← valueTypes d s rest)

end

/-- The type of an expression that must have one. -/
def valueType (d : Descriptor) (s : Scope) (e : Expr) : Except TypeFault ScalarType :=
  asValue e (typeOf d s e)

end GridKernel.Typing
