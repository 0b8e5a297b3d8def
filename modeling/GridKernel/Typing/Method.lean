import GridKernel.Typing.Expr

/-!
# Well-typed methods

Statements are checked in order, each against the locals in sight, and a fault is reported at the
ordinal of the statement that holds it. A method with a return type must not run off its end.
-/

namespace GridKernel.Typing

/-- A fault and the ordinal of the statement it is in. -/
structure LocatedFault where
  position : Nat
  fault : TypeFault
  deriving DecidableEq, Repr

def locate {α : Type} (position : Nat) (r : Except TypeFault α) : Except LocatedFault α :=
  r.mapError fun f => ⟨position, f⟩

mutual

/-- Whether control leaves the innermost loop through a `break` in the statement. -/
def breaks : Stmt → Bool
  | .breakLoop => true
  | .branch _ thenBody elseBody => anyBreaks thenBody || anyBreaks elseBody
  | .block body => anyBreaks body
  | _ => false

def anyBreaks : List Stmt → Bool
  | [] => false
  | s :: rest => breaks s || anyBreaks rest

end

mutual

/-- Whether control never passes the end of the statement. -/
def returns : Stmt → Bool
  | .ret _ => true
  | .branch _ thenBody elseBody => anyReturns thenBody && anyReturns elseBody
  | .block body => anyReturns body
  | .whileLoop (.literal (.boolean true)) body => !anyBreaks body
  | _ => false

def anyReturns : List Stmt → Bool
  | [] => false
  | s :: rest => returns s || anyReturns rest

end

/-- The initializer of a `for` is a declaration or an expression. -/
def isInitializer : Stmt → Bool
  | .declare _ _ _ | .expr _ => true
  | _ => false

/-- A declaration is checked after its initial value. -/
def checkDeclare (d : Descriptor) (s : Scope) (name : String) (type : ScalarType)
    (init : Option Expr) : Except TypeFault Scope := do
  match init with
  | some e => do
    let t ← valueType d s e
    if t ≠ type then .error (.badInit type name t)
  | none => pure ()
  if !Name.isValid name then .error (.badLocalName name)
  else if s.declares name then .error (.redeclared name)
  else return s.declare name type

def checkCondition (d : Descriptor) (s : Scope) (cond : Expr) : Except TypeFault Unit :=
  expectType .condition .boolean (valueType d s cond)

def checkReturn (d : Descriptor) (m : Method) (s : Scope) (value : Option Expr) :
    Except TypeFault Unit := do
  let found ← match value with
    | some e => do pure (some (← valueType d s e))
    | none => pure none
  if found = m.ret then .ok () else .error (.badReturn m.name m.ret found)

/-- Expressions evaluated for their effects alone. -/
def checkUpdates (d : Descriptor) (s : Scope) : List Expr → Except TypeFault Unit
  | [] => .ok ()
  | e :: rest => do
    let _ ← typeOf d s e
    checkUpdates d s rest

mutual

/-- Checks a statement with the given ordinal and returns the scope after it. -/
def checkStmt (d : Descriptor) (m : Method) (inLoop : Bool) (position : Nat) (s : Scope) :
    Stmt → Except LocatedFault Scope
  | .declare name type init => locate position (checkDeclare d s name type init)
  | .expr e => do
    let _ ← locate position (typeOf d s e)
    return s
  | .branch cond thenBody elseBody => do
    locate position (checkCondition d s cond)
    let _ ← checkBody d m inLoop (position + 1) s.push thenBody
    let _ ← checkBody d m inLoop (position + 1 + Stmt.count thenBody) s.push elseBody
    return s
  | .whileLoop cond body => do
    locate position (checkCondition d s cond)
    let _ ← checkBody d m true (position + 1) s.push body
    return s
  | .doWhile body cond => do
    let _ ← checkBody d m true (position + 1) s.push body
    locate position (checkCondition d s cond)
    return s
  | .forLoop init cond update body => do
    let inner ← checkInits d m inLoop (position + 1) s.push init
    match cond with
    | some c => locate position (checkCondition d inner c)
    | none => pure ()
    locate position (checkUpdates d inner update)
    let _ ← checkBody d m true (position + 1 + Stmt.count init) inner.push body
    return s
  | .breakLoop => if inLoop then .ok s else .error ⟨position, .strayBreak⟩
  | .continueLoop => if inLoop then .ok s else .error ⟨position, .strayContinue⟩
  | .ret value => do
    locate position (checkReturn d m s value)
    return s
  | .block body => do
    let _ ← checkBody d m inLoop (position + 1) s.push body
    return s

/-- Checks statements one after the other. -/
def checkBody (d : Descriptor) (m : Method) (inLoop : Bool) (position : Nat) (s : Scope) :
    List Stmt → Except LocatedFault Scope
  | [] => .ok s
  | stmt :: rest => do
    let s ← checkStmt d m inLoop position s stmt
    checkBody d m inLoop (position + stmt.flatten.length) s rest

/-- Checks the initializers of a `for`. -/
def checkInits (d : Descriptor) (m : Method) (inLoop : Bool) (position : Nat) (s : Scope) :
    List Stmt → Except LocatedFault Scope
  | [] => .ok s
  | stmt :: rest =>
    if isInitializer stmt then do
      let s ← checkStmt d m inLoop position s stmt
      checkInits d m inLoop (position + stmt.flatten.length) s rest
    else .error ⟨position, .badInitializer⟩

end

/-- A fault of a method; one in its head has no position. -/
structure MethodFault where
  method : String
  position : Option Nat
  fault : TypeFault
  deriving DecidableEq, Repr

def checkMethod (d : Descriptor) (m : Method) : Except MethodFault Unit :=
  match m.params.find? fun p => !Name.isValid p.name with
  | some p => .error ⟨m.name, none, .badParamName p.name⟩
  | none =>
    match checkBody d m false 0 (.ofMethod m) m.body with
    | .error f => .error ⟨m.name, some f.position, f.fault⟩
    | .ok _ =>
      if m.ret.isSome && !anyReturns m.body then .error ⟨m.name, none, .missingReturn m.name⟩
      else .ok ()

/-- Every reachable method is well typed. -/
def check (d : Descriptor) : Except MethodFault Unit := d.methods.forM (checkMethod d)

def MethodFault.diagnose (kernel : String) (f : MethodFault) : Diagnostic :=
  ⟨f.fault.kind, kernel, f.fault.message, some f.method, f.position, [], none⟩

end GridKernel.Typing
