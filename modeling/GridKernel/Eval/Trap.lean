import GridKernel.Lang.Syntax

/-!
# Traps

Why a work-item stops. A checked kernel stops only for an index out of bounds or an integer
division by zero; the other causes belong to programs that were not checked.
-/

namespace GridKernel

inductive Trap where
  | outOfBounds (index : Int64) (name : String) (size : Nat)
  | divisionByZero
  | unboundLocal (name : String)
  | unknownField (name : String)
  | notScalar (name : String)
  | notArray (name : String)
  | noLength (name : String)
  | unknownMethod (name : String)
  | voidValue (method : String)
  | notCondition (value : Value)
  | notInteger (op : AtomicOp)
  | notAtomic (name : String)
  | noSlot (name : String) (index : Nat)
  | integerOp (op : BinaryOp)
  | floatingOp (op : BinaryOp)
  | booleanOp (op : BinaryOp)
  | mixedOp (op : BinaryOp) (lhs rhs : ScalarType)
  | shiftCount (type : ScalarType)
  | shiftOf (type : ScalarType)
  | unaryOp (op : UnaryOp) (type : ScalarType)
  | notFloating (func : Builtin)
  | twoArguments (func : Builtin)
  | notNumeric
  | undefinedPair (func : Builtin) (lhs rhs : ScalarType)
  | notFloatingPair
  | noWorkItem (func : Builtin)
  deriving DecidableEq

def Trap.message : Trap → String
  | outOfBounds index name size =>
    s!"index {index.toInt} out of bounds for '{name}' of length {size}"
  | divisionByZero => "integer division by zero"
  | unboundLocal name => s!"unbound local '{name}'"
  | unknownField name => s!"unknown field '{name}'"
  | notScalar name => s!"field '{name}' is not a scalar"
  | notArray name => s!"field '{name}' is not an array"
  | noLength name => s!"field '{name}' has no length"
  | unknownMethod name => s!"unknown method '{name}'"
  | voidValue method => s!"void method '{method}' used as a value"
  | notCondition value => s!"condition evaluated to {value.text}"
  | notInteger op => s!"non-integer operand to {op.sourceName}"
  | notAtomic name => s!"field '{name}' is not atomic"
  | noSlot name index => s!"atomic field '{name}' has no slot {index}"
  | integerOp op => s!"operator '{op.symbol}' on integers"
  | floatingOp op => s!"operator '{op.symbol}' on floating point"
  | booleanOp op => s!"operator '{op.symbol}' on booleans"
  | mixedOp op lhs rhs => s!"operator '{op.symbol}' on {lhs.name} and {rhs.name}"
  | shiftCount type => s!"shift count of type {type.name}"
  | shiftOf type => s!"shift of {type.name}"
  | unaryOp op type => s!"operator '{op.symbol}' on {type.name}"
  | notFloating func => s!"{func.sourceName} of a non-floating value"
  | twoArguments func => s!"{func.sourceName} expects two arguments"
  | notNumeric => "abs of a non-numeric value"
  | undefinedPair func lhs rhs => s!"{func.sourceName}({lhs.name}, {rhs.name}) is not defined"
  | notFloatingPair => "pow of non-floating values"
  | noWorkItem func => s!"{func.sourceName} outside a work-item"

end GridKernel
