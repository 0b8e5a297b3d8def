import GridKernel.Target.Translate

/-!
# Statements of target programs

A statement becomes the expressions that run first, each as a statement of its own, and then
itself. Conditions of loops are evaluated anew each time round, so what runs before them is joined
to them with commas.
-/

namespace GridKernel.Target

/-- The expressions that run first, as statements. -/
def Emitted.lifted (e : Emitted) : List Stmt := e.pre.map .expr

/-- The initializers of a `for`: a single one goes into the head. -/
inductive LoopInit where
  | head (init : Option ForInit)
  | before (stmts : List Stmt)

def LoopInit.ofStmts : List Stmt → LoopInit
  | [] => .head none
  | [.declare type name init] => .head (some (.declare type name init))
  | [.expr e] => .head (some (.expr e))
  | stmts => .before stmts

/-- Conditions and updates of a loop as single expressions. -/
def inlineAll (d : Descriptor) (s : Scope) : List GridKernel.Expr → Emit (List Expr)
  | [] => return []
  | e :: rest => do
    let r ← expr d s e
    return r.inline :: (← inlineAll d s rest)

def inlineOption (d : Descriptor) (s : Scope) : Option GridKernel.Expr → Emit (Option Expr)
  | none => return none
  | some e => do
    let r ← expr d s e
    return some r.inline

mutual

/-- Translates a statement; the scope after it is returned with it. -/
def stmt (d : Descriptor) (s : Scope) : GridKernel.Stmt → Emit (List Stmt × Scope)
  | .declare name type none => return ([.declare type name none], s.declare name type)
  | .declare name type (some init) => do
    let e ← expr d s init
    return (e.lifted ++ [.declare type name (some e.value)], s.declare name type)
  | .expr e => do
    let e ← expr d s e
    return (e.lifted ++ [.expr e.value], s)
  | .branch cond thenBody elseBody => do
    let c ← expr d s cond
    let t ← body d s.push thenBody
    let e ← body d s.push elseBody
    return (c.lifted ++ [.branch c.value t.1 e.1], s)
  | .whileLoop cond block => do
    let c ← expr d s cond
    let b ← body d s.push block
    return ([.whileLoop c.inline b.1], s)
  | .doWhile block cond => do
    let b ← body d s.push block
    let c ← expr d s cond
    return ([.doWhile b.1 c.inline], s)
  | .forLoop init cond update block => do
    let (first, inner) ← body d s.push init
    let c ← inlineOption d inner cond
    let u ← inlineAll d inner update
    let b ← body d inner.push block
    match LoopInit.ofStmts first with
    | .head init => return ([.forLoop init c u b.1], s)
    | .before stmts => return ([.block (stmts ++ [.forLoop none c u b.1])], s)
  | .breakLoop => return ([.breakLoop], s)
  | .continueLoop => return ([.continueLoop], s)
  | .ret none => return ([.ret none], s)
  | .ret (some value) => do
    let e ← expr d s value
    return (e.lifted ++ [.ret (some e.value)], s)
  | .block block => do
    let b ← body d s.push block
    return ([.block b.1], s)

/-- Translates statements one after the other. -/
def body (d : Descriptor) (s : Scope) : List GridKernel.Stmt → Emit (List Stmt × Scope)
  | [] => return ([], s)
  | first :: rest => do
    let (stmts, s) ← stmt d s first
    let (more, s) ← body d s rest
    return (stmts ++ more, s)

end

/-- Translates the body of a method. -/
def methodBody (d : Descriptor) (m : Method) : Except TypeFault Body := do
  let ((stmts, _), temps) ← (body d (.ofMethod m) m.body).run []
  return ⟨temps, stmts⟩

end GridKernel.Target
