/-!
# Operators and built-in functions
-/

namespace GridKernel

inductive BinaryOp where
  | add | sub | mul | div | rem
  | shl | shr
  /-- The right shift that brings in zeros. -/
  | ushr
  | bitAnd | bitOr | bitXor
  | eq | ne | lt | le | gt | ge
  /-- Both, evaluating the right operand only after a true left one. -/
  | and
  /-- Either, evaluating the right operand only after a false left one. -/
  | or
  deriving DecidableEq, Repr, Inhabited

namespace BinaryOp

def all : List BinaryOp :=
  [add, sub, mul, div, rem, shl, shr, ushr, bitAnd, bitOr, bitXor, eq, ne, lt, le, gt, ge, and, or]

/-- The operator's name in documents. -/
def name : BinaryOp → String
  | add => "add"
  | sub => "sub"
  | mul => "mul"
  | div => "div"
  | rem => "rem"
  | shl => "shl"
  | shr => "shr"
  | ushr => "u_shr"
  | bitAnd => "bit_and"
  | bitOr => "bit_or"
  | bitXor => "bit_xor"
  | eq => "eq"
  | ne => "ne"
  | lt => "lt"
  | le => "le"
  | gt => "gt"
  | ge => "ge"
  | and => "and"
  | or => "or"

def ofName? (s : String) : Option BinaryOp := all.find? (·.name == s)

def symbol : BinaryOp → String
  | add => "+"
  | sub => "-"
  | mul => "*"
  | div => "/"
  | rem => "%"
  | shl => "<<"
  | shr => ">>"
  | ushr => ">>>"
  | bitAnd => "&"
  | bitOr => "|"
  | bitXor => "^"
  | eq => "=="
  | ne => "!="
  | lt => "<"
  | le => "<="
  | gt => ">"
  | ge => ">="
  | and => "&&"
  | or => "||"

def isComparison : BinaryOp → Bool
  | eq | ne | lt | le | gt | ge => true
  | _ => false

def isShift : BinaryOp → Bool
  | shl | shr | ushr => true
  | _ => false

def isShortCircuit : BinaryOp → Bool
  | and | or => true
  | _ => false

def isBitwise : BinaryOp → Bool
  | bitAnd | bitOr | bitXor => true
  | _ => false

end BinaryOp

inductive UnaryOp where
  | neg
  /-- Logical negation. -/
  | not
  /-- Complement of every bit. -/
  | bitNot
  deriving DecidableEq, Repr, Inhabited

namespace UnaryOp

def all : List UnaryOp := [neg, not, bitNot]

def name : UnaryOp → String
  | neg => "neg"
  | not => "not"
  | bitNot => "bit_not"

def ofName? (s : String) : Option UnaryOp := all.find? (·.name == s)

def symbol : UnaryOp → String
  | neg => "-"
  | not => "!"
  | bitNot => "~"

end UnaryOp

/-- The direction of an increment. -/
inductive StepOp where
  | inc
  | dec
  deriving DecidableEq, Repr, Inhabited

namespace StepOp

def all : List StepOp := [inc, dec]

def name : StepOp → String
  | inc => "inc"
  | dec => "dec"

def ofName? (s : String) : Option StepOp := all.find? (·.name == s)

def symbol : StepOp → String
  | inc => "++"
  | dec => "--"

/-- The arithmetic operator an increment applies with the amount one. -/
def binary : StepOp → BinaryOp
  | inc => .add
  | dec => .sub

end StepOp

/-- Questions a work-item asks about its place, and mathematical functions. -/
inductive Builtin where
  | globalId | localId | groupId | globalSize | localSize | numGroups
  | passId
  | abs | min | max | sqrt | sin | cos | tan | exp | log | pow | floor | ceil
  deriving DecidableEq, Repr, Inhabited

namespace Builtin

def all : List Builtin :=
  [globalId, localId, groupId, globalSize, localSize, numGroups, passId, abs, min, max, sqrt, sin,
    cos, tan, exp, log, pow, floor, ceil]

/-- The function's name in documents. -/
def name : Builtin → String
  | globalId => "global_id"
  | localId => "local_id"
  | groupId => "group_id"
  | globalSize => "global_size"
  | localSize => "local_size"
  | numGroups => "num_groups"
  | passId => "pass_id"
  | abs => "abs"
  | min => "min"
  | max => "max"
  | sqrt => "sqrt"
  | sin => "sin"
  | cos => "cos"
  | tan => "tan"
  | exp => "exp"
  | log => "log"
  | pow => "pow"
  | floor => "floor"
  | ceil => "ceil"

def ofName? (s : String) : Option Builtin := all.find? (·.name == s)

/-- The function's name in listings and diagnostics. -/
def sourceName : Builtin → String
  | globalId => "getGlobalId"
  | localId => "getLocalId"
  | groupId => "getGroupId"
  | globalSize => "getGlobalSize"
  | localSize => "getLocalSize"
  | numGroups => "getNumGroups"
  | passId => "getPassId"
  | f => f.name

/-- Work-item queries take the number of a dimension. -/
def isQuery : Builtin → Bool
  | globalId | localId | groupId | globalSize | localSize | numGroups => true
  | _ => false

def arity : Builtin → Nat
  | passId => 0
  | min | max | pow => 2
  | _ => 1

end Builtin

end GridKernel
