import GridKernel.Lang.Syntax

/-!
# Traversals

`Expr.nodes` lists an expression and everything inside it, outermost first. Statements are listed
in two ways: `Stmt.numbered` gives each its ordinal, the position that diagnostics report, and
`Stmt.allNodes` lists every expression in them.
-/

namespace GridKernel

mutual

/-- The expression and all its subexpressions, outermost first. -/
def Expr.nodes : Expr → List Expr
  | .element array index => .element array index :: index.nodes
  | .binary op lhs rhs => .binary op lhs rhs :: (lhs.nodes ++ rhs.nodes)
  | .unary op operand => .unary op operand :: operand.nodes
  | .conditional cond thenValue elseValue =>
    .conditional cond thenValue elseValue
      :: (cond.nodes ++ thenValue.nodes ++ elseValue.nodes)
  | .cast type value implicit => .cast type value implicit :: value.nodes
  | .assign target op value =>
    .assign target op value :: (target.nodes ++ value.nodes)
  | .step target op before => .step target op before :: target.nodes
  | .call method args => .call method args :: Expr.listNodes args
  | .atomic op slot args =>
    .atomic op slot args :: (slot.nodes ++ Expr.listNodes args)
  | .builtin func args => .builtin func args :: Expr.listNodes args
  | e => [e]

def Place.nodes : Place Expr → List Expr
  | .element _ index => index.nodes
  | _ => []

def SlotRef.nodes : SlotRef Expr → List Expr
  | ⟨_, index⟩ => Expr.optionNodes index

def Expr.optionNodes : Option Expr → List Expr
  | some e => e.nodes
  | none => []

def Expr.listNodes : List Expr → List Expr
  | [] => []
  | e :: rest => e.nodes ++ Expr.listNodes rest

end

/-- The expressions a statement holds itself, those of nested statements left out. -/
def Stmt.ownExprs : Stmt → List Expr
  | .declare _ _ init => init.toList
  | .expr e => [e]
  | .branch cond _ _ => [cond]
  | .whileLoop cond _ => [cond]
  | .doWhile _ cond => [cond]
  | .forLoop _ cond update _ => cond.toList ++ update
  | .ret value => value.toList
  | .breakLoop | .continueLoop | .block _ => []

mutual

/-- The statement and those nested in it: each before its parts, the initializers of a `for`
before its body. -/
def Stmt.flatten : Stmt → List Stmt
  | .branch cond thenBody elseBody =>
    .branch cond thenBody elseBody :: (Stmt.flattenAll thenBody ++ Stmt.flattenAll elseBody)
  | .whileLoop cond body => .whileLoop cond body :: Stmt.flattenAll body
  | .doWhile body cond => .doWhile body cond :: Stmt.flattenAll body
  | .forLoop init cond update body =>
    .forLoop init cond update body :: (Stmt.flattenAll init ++ Stmt.flattenAll body)
  | .block body => .block body :: Stmt.flattenAll body
  | s => [s]

def Stmt.flattenAll : List Stmt → List Stmt
  | [] => []
  | s :: rest => s.flatten ++ Stmt.flattenAll rest

end

/-- Every statement with its ordinal. -/
def Stmt.numbered (body : List Stmt) : List (Stmt × Nat) := (Stmt.flattenAll body).zipIdx

/-- The number of statements, nested ones included. -/
def Stmt.count (body : List Stmt) : Nat := (Stmt.flattenAll body).length

mutual

/-- Every expression in a statement: a loop's condition before its body, and in a `for` the
initializers, the condition, the updates and the body. -/
def Stmt.nodes : Stmt → List Expr
  | .declare _ _ init => Expr.optionNodes init
  | .expr e => e.nodes
  | .branch cond thenBody elseBody =>
    cond.nodes ++ Stmt.allNodes thenBody ++ Stmt.allNodes elseBody
  | .whileLoop cond body => cond.nodes ++ Stmt.allNodes body
  | .doWhile body cond => cond.nodes ++ Stmt.allNodes body
  | .forLoop init cond update body =>
    Stmt.allNodes init ++ Expr.optionNodes cond ++ Expr.listNodes update ++ Stmt.allNodes body
  | .ret value => Expr.optionNodes value
  | .block body => Stmt.allNodes body
  | .breakLoop | .continueLoop => []

/-- Every expression in a list of statements. -/
def Stmt.allNodes : List Stmt → List Expr
  | [] => []
  | s :: rest => s.nodes ++ Stmt.allNodes rest

end

end GridKernel
