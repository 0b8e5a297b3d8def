import GridKernel.Atomic.Op
import GridKernel.Lang.Operator
import GridKernel.Lang.Value

/-!
# Kernel programs

Expressions, statements and methods. Numeric promotion is explicit: where a value changes type
there is a `cast`, and `implicit` only records that it was not written by hand.
-/

namespace GridKernel

/-- A storage location that can be assigned, over the expressions that index it. -/
inductive Place (ε : Type) where
  | var (name : String)
  /-- A scalar field. -/
  | field (name : String)
  /-- An element of an array field. -/
  | element (array : String) (index : ε)
  deriving Repr

/-- An atomic field, or one element of an atomic array field. -/
structure SlotRef (ε : Type) where
  field : String
  index : Option ε
  deriving Repr

inductive Expr where
  | literal (value : Value)
  | var (name : String)
  | field (name : String)
  | element (array : String) (index : Expr)
  /-- The length of an array field. -/
  | length (array : String)
  | binary (op : BinaryOp) (lhs rhs : Expr)
  | unary (op : UnaryOp) (operand : Expr)
  | conditional (cond thenValue elseValue : Expr)
  | cast (type : ScalarType) (value : Expr) (implicit : Bool)
  /-- A plain assignment, or a compound one when there is an operator. -/
  | assign (target : Place Expr) (op : Option BinaryOp) (value : Expr)
  /-- An increment or decrement; `before` says that its value is the new one. -/
  | step (target : Place Expr) (op : StepOp) (before : Bool)
  | call (method : String) (args : List Expr)
  | atomic (op : AtomicOp) (slot : SlotRef Expr) (args : List Expr)
  | builtin (func : Builtin) (args : List Expr)

inductive Stmt where
  | declare (name : String) (type : ScalarType) (init : Option Expr)
  | expr (e : Expr)
  | branch (cond : Expr) (thenBody elseBody : List Stmt)
  | whileLoop (cond : Expr) (body : List Stmt)
  | doWhile (body : List Stmt) (cond : Expr)
  | forLoop (init : List Stmt) (cond : Option Expr) (update : List Expr) (body : List Stmt)
  | breakLoop
  | continueLoop
  | ret (value : Option Expr)
  | block (body : List Stmt)

structure Param where
  name : String
  type : ScalarType
  deriving DecidableEq, Repr

/-- A method of a kernel: its entry point or a helper. Without a return type it is void. -/
structure Method where
  name : String
  params : List Param := []
  ret : Option ScalarType := none
  body : List Stmt

namespace Expr

def int (v : Int32) : Expr := .literal (.int v)

def globalId (dim : Int32) : Expr := .builtin .globalId [.int dim]

def isLiteral : Expr → Bool
  | .literal _ => true
  | _ => false

mutual

/-- Whether evaluating the expression may write state or call a method. -/
def hasEffects : Expr → Bool
  | .literal _ | .var _ | .field _ | .length _ => false
  | .element _ index => hasEffects index
  | .binary _ lhs rhs => hasEffects lhs || hasEffects rhs
  | .unary _ operand => hasEffects operand
  | .conditional cond thenValue elseValue =>
    hasEffects cond || hasEffects thenValue || hasEffects elseValue
  | .cast _ value _ => hasEffects value
  | .assign _ _ _ | .step _ _ _ | .call _ _ | .atomic _ _ _ => true
  | .builtin _ args => anyEffects args

def anyEffects : List Expr → Bool
  | [] => false
  | e :: rest => hasEffects e || anyEffects rest

end

end Expr

end GridKernel
