import GridKernel.Eval.Machine

/-!
# Evaluation

Operands are evaluated from left to right, each once. Every function takes a number of steps that
bounds the nesting of its calls and the rounds of its loops; when they are used up it stops with
`exhausted`, and otherwise their number does not matter.
-/

namespace GridKernel.Eval

/-- How a statement ends. -/
inductive Flow where
  | normal
  | broke
  | continued
  | returned (value : Option Value)
  deriving DecidableEq

def exhausted {α : Type} : Comp α := throw .exhausted

/-- A condition's value. -/
def truth : Value → Comp Bool
  | .boolean b => pure b
  | v => trap (.notCondition v)

/-- The integer operand of an atomic operation. -/
def operand (op : AtomicOp) (v : Value) : Comp Int64 :=
  match v.integer? with
  | some i => pure i
  | none => trap (.notInteger op)

def builtinValue (c : Context) (func : Builtin) (args : List Value) : Comp Value :=
  if func = .passId then pure (.int c.item.passId)
  else if func.isQuery then
    pure (.int (c.item.query func ((args.head?.bind Value.integer?).getD 0)))
  else orTrap (math func args)

mutual

/-- Evaluates an expression that has a value. -/
def eval (c : Context) : Nat → Expr → Comp Value
  | 0, _ => exhausted
  | n + 1, e =>
    match e with
    | .literal v => pure v
    | .var name => readLocal name
    | .field name => readScalar c name
    | .element array index => do
      let i ← eval c n index
      let i ← checkIndex array i (← arraySize c array)
      readElement c array i
    | .length array => lengthOf c array
    | .binary .and lhs rhs => do
      if ← truth (← eval c n lhs) then return .boolean (← truth (← eval c n rhs))
      else return .boolean false
    | .binary .or lhs rhs => do
      if ← truth (← eval c n lhs) then return .boolean true
      else return .boolean (← truth (← eval c n rhs))
    | .binary op lhs rhs => do
      let l ← eval c n lhs
      let r ← eval c n rhs
      orTrap (binary op l r)
    | .unary op operand => do
      let v ← eval c n operand
      orTrap (unary op v)
    | .conditional cond thenValue elseValue => do
      if ← truth (← eval c n cond) then eval c n thenValue else eval c n elseValue
    | .cast type value _ => do
      let v ← eval c n value
      return v.cast type
    | .assign target none value => do
      let t ← resolve c n target
      let v ← eval c n value
      writeLocation c v t
      return v
    | .assign target (some op) value => do
      let t ← resolve c n target
      let old ← readLocation c t
      let v ← eval c n value
      let result := (← orTrap (binary op old v)).cast old.type
      writeLocation c result t
      return result
    | .step target op before => do
      let t ← resolve c n target
      let old ← readLocation c t
      let new := stepped op old
      writeLocation c new t
      return if before then new else old
    | .call method args => do
      match ← call c n method args with
      | some v => return v
      | none => trap (.voidValue method)
    | .atomic op slot args => do
      let index ← evalOption c n slot.index
      let operands ← evalOperands c n op args
      performAtomic c op slot.field index operands
    | .builtin func args => do
      let values ← evalAll c n args
      builtinValue c func values

/-- Evaluates the index of a place, once. -/
def resolve (c : Context) : Nat → Place Expr → Comp Location
  | 0, _ => exhausted
  | n + 1, p =>
    match p with
    | .var name => return .var name
    | .field name => do
      let (i, _) ← binding c name
      return .field i name
    | .element array index => do
      let i ← eval c n index
      return .element array (← checkIndex array i (← arraySize c array))

def evalOption (c : Context) : Nat → Option Expr → Comp (Option Value)
  | 0, _ => exhausted
  | _ + 1, none => return none
  | n + 1, some e => do return some (← eval c n e)

def evalAll (c : Context) : Nat → List Expr → Comp (List Value)
  | 0, _ => exhausted
  | _ + 1, [] => return []
  | n + 1, e :: rest => do
    let v ← eval c n e
    return v :: (← evalAll c n rest)

def evalOperands (c : Context) : Nat → AtomicOp → List Expr → Comp (List Int64)
  | 0, _, _ => exhausted
  | _ + 1, _, [] => return []
  | n + 1, op, e :: rest => do
    let v ← operand op (← eval c n e)
    return v :: (← evalOperands c n op rest)

/-- Calls a method; a void one returns no value. -/
def call (c : Context) : Nat → String → List Expr → Comp (Option Value)
  | 0, _, _ => exhausted
  | n + 1, name, args =>
    match c.descriptor.method? name with
    | none => trap (.unknownMethod name)
    | some m => do
      let values ← evalAll c n args
      invoke c n m values

/-- Runs a method's body in a frame of its own. -/
def invoke (c : Context) : Nat → Method → List Value → Comp (Option Value)
  | 0, _, _ => exhausted
  | n + 1, m, args => do
    match ← framed (frameOf m args) (block c n m.body) with
    | .returned v => return v
    | _ => return none

def block (c : Context) : Nat → List Stmt → Comp Flow
  | 0, _ => exhausted
  | n + 1, body => enclosed (stmts c n body)

/-- Runs statements until one does not end normally. -/
def stmts (c : Context) : Nat → List Stmt → Comp Flow
  | 0, _ => exhausted
  | _ + 1, [] => return .normal
  | n + 1, s :: rest => do
    match ← stmt c n s with
    | .normal => stmts c n rest
    | flow => return flow

def stmt (c : Context) : Nat → Stmt → Comp Flow
  | 0, _ => exhausted
  | n + 1, s =>
    match s with
    | .declare name type none => do
      declareLocal name (.zero type)
      return .normal
    | .declare name type (some init) => do
      let v ← eval c n init
      declareLocal name (v.cast type)
      return .normal
    | .expr (.call method args) => do
      let _ ← call c n method args
      return .normal
    | .expr e => do
      let _ ← eval c n e
      return .normal
    | .branch cond thenBody elseBody => do
      if ← truth (← eval c n cond) then block c n thenBody else block c n elseBody
    | .whileLoop cond body => whileLoop c n cond body
    | .doWhile body cond => doWhile c n body cond
    | .forLoop init cond update body => enclosed do
      inits c n init
      forLoop c n cond update body
    | .breakLoop => return .broke
    | .continueLoop => return .continued
    | .ret value => do return .returned (← evalOption c n value)
    | .block body => block c n body

def whileLoop (c : Context) : Nat → Expr → List Stmt → Comp Flow
  | 0, _, _ => exhausted
  | n + 1, cond, body => do
    if ← truth (← eval c n cond) then
      match ← block c n body with
      | .broke => return .normal
      | .returned v => return .returned v
      | _ => whileLoop c n cond body
    else return .normal

def doWhile (c : Context) : Nat → List Stmt → Expr → Comp Flow
  | 0, _, _ => exhausted
  | n + 1, body, cond => do
    match ← block c n body with
    | .broke => return .normal
    | .returned v => return .returned v
    | _ =>
      if ← truth (← eval c n cond) then doWhile c n body cond else return .normal

/-- The initializers of a `for`, whatever way they end. -/
def inits (c : Context) : Nat → List Stmt → Comp Unit
  | 0, _ => exhausted
  | _ + 1, [] => return ()
  | n + 1, s :: rest => do
    let _ ← stmt c n s
    inits c n rest

/-- The rounds of a `for`; without a condition they go on. -/
def forLoop (c : Context) : Nat → Option Expr → List Expr → List Stmt → Comp Flow
  | 0, _, _, _ => exhausted
  | n + 1, cond, update, body => do
    let go ← match cond with
      | none => pure true
      | some e => do truth (← eval c n e)
    if go then
      match ← block c n body with
      | .broke => return .normal
      | .returned v => return .returned v
      | _ => do
        let _ ← evalAll c n update
        forLoop c n cond update body
    else return .normal

end

/-- Runs the entry point for one work-item and returns the memory it leaves behind. -/
def run (c : Context) (steps : Nat) (memory : Memory) : Memory × Option Stop :=
  match invoke c steps c.descriptor.main [] { memory := memory } with
  | .ok _ m => (m.memory, none)
  | .error stop m => (m.memory, some stop)

end GridKernel.Eval
