import GridKernel.Kernel.Descriptor

/-!
# Target programs

The part of OpenCL C that kernels are compiled to. Parentheses are explicit, so that printing a
tree decides nothing.
-/

namespace GridKernel.Target

/-- The functions a target program calls. -/
inductive Callee where
  /-- A helper method, which takes the kernel's state before its arguments. -/
  | helper (method : String)
  /-- The number of the pass, read from the kernel's state. -/
  | passId
  | atomic (op : AtomicOp) (width : SlotWidth)
  /-- Conversion to an integer that saturates and rounds towards zero. -/
  | convert (width : SlotWidth)
  /-- A question of a work-item about its place. -/
  | query (func : Builtin)
  | math (name : String)
  deriving DecidableEq, Repr

inductive Expr where
  | literal (value : Value)
  | var (name : String)
  | temp (number : Nat)
  /-- A member of the kernel's state: a scalar field, or the pointer of an array or slot field. -/
  | member (name : String)
  /-- The member that holds an array's length. -/
  | lengthOf (array : String)
  | element (array : String) (index : Expr)
  | addressOf (array : String) (index : Expr)
  | paren (e : Expr)
  | binary (op : BinaryOp) (lhs rhs : Expr)
  /-- A right shift carried out on the unsigned type of the same width. -/
  | shiftUnsigned (type : ScalarType) (lhs rhs : Expr)
  | unary (op : UnaryOp) (operand : Expr)
  | conditional (cond thenValue elseValue : Expr)
  | cast (type : ScalarType) (value : Expr)
  | call (callee : Callee) (args : List Expr)
  | assign (target value : Expr)
  | compound (op : BinaryOp) (target value : Expr)
  | step (op : StepOp) (before : Bool) (target : Expr)
  /-- Expressions evaluated one after the other; the last gives the value. -/
  | comma (first : List Expr) (value : Expr)

/-- What may stand first in the head of a `for`. -/
inductive ForInit where
  | declare (type : ScalarType) (name : String) (init : Option Expr)
  | expr (e : Expr)

inductive Stmt where
  | declare (type : ScalarType) (name : String) (init : Option Expr)
  | expr (e : Expr)
  | branch (cond : Expr) (thenBody elseBody : List Stmt)
  | whileLoop (cond : Expr) (body : List Stmt)
  | doWhile (body : List Stmt) (cond : Expr)
  | forLoop (init : Option ForInit) (cond : Option Expr) (update : List Expr) (body : List Stmt)
  | breakLoop
  | continueLoop
  | ret (value : Option Expr)
  | block (body : List Stmt)

/-- A function body: the types of its temporaries, which are numbered from zero and declared
first, and its statements. -/
structure Body where
  temps : List ScalarType
  stmts : List Stmt

/-- A member of the kernel's state. Each is also a parameter of the kernel function. -/
inductive Member where
  | scalar (type : ScalarType) (name : String)
  | array (space : MemorySpace) (type : ScalarType) (name : String)
  | slots (scope : SlotScope) (width : SlotWidth) (name : String)
  | length (owner : String)
  | passId
  deriving DecidableEq, Repr

/-- Extensions of OpenCL C that a program must enable. -/
inductive Extension where
  | double
  | longAtomicsBase
  | longAtomicsExtended
  | byteStores
  deriving DecidableEq, Repr

structure Helper where
  method : String
  ret : Option ScalarType
  params : List Param
  body : Body

structure Program where
  /-- The kernel's name as the beginning of an identifier. -/
  stem : String
  extensions : List Extension
  members : List Member
  helpers : List Helper
  entry : String
  body : Body

end GridKernel.Target
