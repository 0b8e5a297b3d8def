import GridKernel.Proofs.Target.Semantics
import GridKernel.Target.Body

/-!
# Meaning of target statements

A local that is declared without an initializer holds no value until one is stored into it, and
each time its declaration is reached it holds none again. In C a declaration is in sight in its own
initializer, where the local holds no value yet.

A loop makes at most `steps` rounds. A body runs in a frame of its own, as the method does.
-/

namespace GridKernel.Target

open Eval (Flow)

/-! ## Declarations -/

mutual

/-- Whether a local of this name occurs in the expression. -/
def Expr.mentions (name : String) : Expr → Bool
  | .var other => other == name
  | .literal _ | .temp _ | .member _ | .lengthOf _ => false
  | .element _ e | .addressOf _ e | .paren e | .unary _ e | .cast _ e | .step _ _ e =>
    e.mentions name
  | .binary _ l r | .shiftUnsigned _ l r | .assign l r | .compound _ l r =>
    l.mentions name || r.mentions name
  | .conditional cond thenValue elseValue =>
    cond.mentions name || thenValue.mentions name || elseValue.mentions name
  | .call _ args => Expr.anyMentions name args
  | .comma first value => Expr.anyMentions name first || value.mentions name

def Expr.anyMentions (name : String) : List Expr → Bool
  | [] => false
  | e :: rest => e.mentions name || Expr.anyMentions name rest

end

/-- Whether an initializer mentions the local that it initializes. -/
def initializesItself (name : String) (init : Option Expr) : Bool := init.any (·.mentions name)

def lacksInitializer (_ : String) (init : Option Expr) : Bool := init.isNone

def ForInit.declares (p : String → Option Expr → Bool) : ForInit → Bool
  | .declare _ name init => p name init
  | .expr _ => false

mutual

/-- Whether some declaration in the statement has this property. -/
def Stmt.declares (p : String → Option Expr → Bool) : Stmt → Bool
  | .declare _ name init => p name init
  | .branch _ thenBody elseBody => Stmt.anyDeclares p thenBody || Stmt.anyDeclares p elseBody
  | .whileLoop _ body | .doWhile body _ | .block body => Stmt.anyDeclares p body
  | .forLoop init _ _ body => init.any (·.declares p) || Stmt.anyDeclares p body
  | .expr _ | .breakLoop | .continueLoop | .ret _ => false

def Stmt.anyDeclares (p : String → Option Expr → Bool) : List Stmt → Bool
  | [] => false
  | s :: rest => s.declares p || Stmt.anyDeclares p rest

end

@[simp] theorem Stmt.anyDeclares_append (p : String → Option Expr → Bool) (first rest) :
    Stmt.anyDeclares p (first ++ rest) = (Stmt.anyDeclares p first || Stmt.anyDeclares p rest) := by
  induction first with
  | nil => rfl
  | cons s others ih => simp [Stmt.anyDeclares, ih, Bool.or_assoc]

@[simp] theorem Emitted.anyDeclares_lifted (p : String → Option Expr → Bool) (em : Emitted) :
    Stmt.anyDeclares p em.lifted = false := by
  unfold Emitted.lifted
  induction em.pre with
  | nil => rfl
  | cons e rest ih => exact ih

/-! ## Statements -/

/-- A local comes into being that holds no value. -/
def declareUnset (type : ScalarType) (name : String) : Exec Unit := modify fun s =>
  { s with
    machine := { s.machine with locals := (name, .zero type) :: s.machine.locals }
    unset := s.machine.locals.length :: s.unset }

/-- Runs a block; what it declares is gone after it. -/
def enclosed {α : Type} (x : Exec α) : Exec α := do
  let size := (← get).machine.locals.length
  let a ← x
  onMachine (Eval.truncate size)
  modify fun s => { s with unset := s.unset.filter (· < size) }
  return a

/-- Rounds of a loop, until one of them says how the loop ends. -/
def rounds (round : Exec (Option Flow)) : Nat → Exec Flow
  | 0 => throw (.stopped .exhausted)
  | n + 1 => do
    match ← round with
    | some flow => return flow
    | none => rounds round n

/-- How a loop ends when its body has ended. -/
def ending : Flow → Option Flow
  | .broke => some .normal
  | .returned v => some (.returned v)
  | .normal | .continued => none

def whileRound (cond : Exec Bool) (body : Exec Flow) : Exec (Option Flow) := do
  if ← cond then return ending (← body) else return some .normal

def doRound (body : Exec Flow) (cond : Exec Bool) : Exec (Option Flow) := do
  match ending (← body) with
  | some flow => return some flow
  | none => return if ← cond then none else some .normal

def forRound {α : Type} (cond : Exec Bool) (update : Exec α) (body : Exec Flow) :
    Exec (Option Flow) := do
  if ← cond then
    match ending (← body) with
    | some flow => return some flow
    | none => do
      let _ ← update
      return none
  else return some .normal

section

variable (c : Eval.Context) (steps : Nat) (types : Temps)

/-- A condition. -/
def test (e : Expr) : Exec Bool := do
  let (v, _) ← exec c steps types e
  onMachine (Eval.truth v)

def testOption : Option Expr → Exec Bool
  | none => return true
  | some e => test c steps types e

/-- Evaluates an expression for its effects. A helper need not return a value then. -/
def discard : Expr → Exec Unit
  | .call (.helper method) args => do
    let (values, _) ← unsequenced (execs c steps types args)
    let m ← orUndefined (c.descriptor.method? method)
    let _ ← onMachine (Eval.invoke c steps m values)
  | e => do
    let _ ← exec c steps types e

/-- A declaration. Where the initializer does not mention the local, it makes no difference that
the local is in sight. -/
def execDeclare (type : ScalarType) (name : String) : Option Expr → Exec Unit
  | none => declareUnset type name
  | some e =>
    if e.mentions name then do
      declareUnset type name
      let (v, _) ← exec c steps types e
      let _ ← storeTo c types (.var name) v {}
    else do
      let (v, _) ← exec c steps types e
      onMachine (Eval.declareLocal name (v.cast type))

def execInit : Option ForInit → Exec Unit
  | none => return ()
  | some (.declare type name init) => execDeclare c steps types type name init
  | some (.expr e) => discard c steps types e

mutual

def execStmt : Stmt → Exec Flow
  | .declare type name init => do
    execDeclare c steps types type name init
    return .normal
  | .expr e => do
    discard c steps types e
    return .normal
  | .branch cond thenBody elseBody => do
    if ← test c steps types cond then enclosed (execStmts thenBody) else enclosed (execStmts elseBody)
  | .whileLoop cond body =>
    rounds (whileRound (test c steps types cond) (enclosed (execStmts body))) steps
  | .doWhile body cond =>
    rounds (doRound (enclosed (execStmts body)) (test c steps types cond)) steps
  | .forLoop init cond update body => enclosed do
    execInit c steps types init
    rounds (forRound (testOption c steps types cond) (execInOrder c steps types update)
      (enclosed (execStmts body))) steps
  | .breakLoop => return .broke
  | .continueLoop => return .continued
  | .ret none => return .returned none
  | .ret (some e) => do
    let (v, _) ← exec c steps types e
    return .returned (some v)
  | .block body => enclosed (execStmts body)

/-- Runs statements until one does not end normally. -/
def execStmts : List Stmt → Exec Flow
  | [] => return .normal
  | s :: rest => do
    match ← execStmt s with
    | .normal => execStmts rest
    | flow => return flow

end

end

theorem execDeclare_apart (apart : initializesItself name (some e) = false) :
    execDeclare c steps types type name (some e) = (do
      let (v, _) ← exec c steps types e
      onMachine (Eval.declareLocal name (v.cast type))) := by
  have apart : e.mentions name = false := apart
  simp only [execDeclare, apart, Bool.false_eq_true, if_false]

/-- Runs the body of a method with these arguments. -/
def Body.run (c : Eval.Context) (steps : Nat) (b : Body) (m : Method) (args : List Value) :
    Exec (Option Value) := do
  let saved ← onMachine Eval.marker
  onMachine (Eval.enter (Eval.frameOf m args))
  let flow ← enclosed (execStmts c steps b.temps b.stmts)
  onMachine (Eval.leave saved)
  match flow with
  | .returned v => return v
  | _ => return none

end GridKernel.Target
