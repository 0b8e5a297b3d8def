import GridKernel.Diagnostic.Basic
import GridKernel.Lang.Listing

/-!
# Typing faults

Why a method is not well typed, and how that is worded.
-/

namespace GridKernel

/-- What an expression is used for where only one type will do. -/
inductive TypeRole where
  | index
  | condition
  | argument (param : String)
  deriving DecidableEq, Repr

def TypeRole.text : TypeRole → String
  | index => "array index"
  | condition => "condition"
  | argument param => "argument '" ++ param ++ "'"

/-- Places and expressions in a fault are kept as their listing text. -/
inductive TypeFault where
  | unknownField (name : String)
  | atomicAccess (name : String)
  | notArray (name : String)
  | arrayAsValue (name : String)
  | undeclaredLocal (name : String)
  | wrongType (role : TypeRole) (want found : ScalarType)
  | voidValue (text : String)
  | lengthOfScalar (name : String)
  | unaryUndefined (op : UnaryOp) (type : ScalarType)
  | binaryUndefined (op : BinaryOp) (lhs rhs : ScalarType)
  | builtinUndefined (func : Builtin) (types : List ScalarType)
  | branchesDisagree (thenType elseType : ScalarType)
  | badCast (source target : ScalarType)
  | badAssign (found want : ScalarType) (target : String)
  | notAssignment (op : BinaryOp)
  | changesType (op : BinaryOp) (target : String)
  | badStep (op : StepOp) (type : ScalarType) (target : String)
  | undeclaredMethod (name : String)
  | entryCalled (name : String)
  | callArity (name : String) (want found : Nat)
  | plainSlot (op : AtomicOp) (field : String)
  | indexedSlot (field : String)
  | unindexedSlots (field : String)
  | atomicArity (op : AtomicOp) (found : Nat)
  | atomicOperand (op : AtomicOp) (width : SlotWidth) (found : ScalarType)
  | builtinArity (func : Builtin) (found : Nat)
  | badInit (want : ScalarType) (name : String) (found : ScalarType)
  | badLocalName (name : String)
  | redeclared (name : String)
  | strayBreak
  | strayContinue
  | badReturn (method : String) (want found : Option ScalarType)
  | badInitializer
  | badParamName (name : String)
  | missingReturn (method : String)
  deriving DecidableEq, Repr

namespace TypeFault

def kind : TypeFault → DiagnosticKind
  | unknownField _ | undeclaredLocal _ | undeclaredMethod _ => .unknownSymbol
  | atomicAccess _ | plainSlot _ _ | indexedSlot _ | unindexedSlots _ | atomicOperand _ _ _ =>
    .atomicMisuse
  | arrayAsValue _ | notAssignment _ | entryCalled _ | badLocalName _ | redeclared _ | strayBreak
  | strayContinue | badInitializer | badParamName _ => .unsupportedConstruct
  | _ => .typeMismatch

/-- A return type, or `void`. -/
def returnName (t : Option ScalarType) : String := t.elim "void" ScalarType.name

def message : TypeFault → String
  | unknownField name => s!"unknown field '{name}'"
  | atomicAccess name => s!"atomic field '{name}' accessed without an atomic primitive"
  | notArray name => s!"field '{name}' is not an array"
  | arrayAsValue name => s!"array field '{name}' used as a value"
  | undeclaredLocal name => s!"undeclared local '{name}'"
  | wrongType role want found => s!"{role.text} must be {want.name}, found {found.name}"
  | voidValue text => s!"void expression '{text}' used as a value"
  | lengthOfScalar name => s!"length of non-array field '{name}'"
  | unaryUndefined op type => s!"operator '{op.symbol}' not defined for {type.name}"
  | binaryUndefined op lhs rhs =>
    s!"operator '{op.symbol}' not defined for {lhs.name} and {rhs.name}"
  | builtinUndefined func types =>
    func.sourceName ++ "(" ++ Text.join ", " (types.map ScalarType.name) ++ ") is not defined"
  | branchesDisagree thenType elseType =>
    s!"conditional branches disagree: {thenType.name} vs {elseType.name}"
  | badCast source target => s!"cannot cast {source.name} to {target.name}"
  | badAssign found want target => s!"cannot assign {found.name} to {want.name} '{target}'"
  | notAssignment op => s!"'{op.symbol}=' is not an assignment operator"
  | changesType op target => s!"'{op.symbol}=' changes the type of '{target}'"
  | badStep op type target => s!"'{op.symbol}' on {type.name} '{target}'"
  | undeclaredMethod name => s!"call to undeclared method '{name}'"
  | entryCalled name => s!"the entry point '{name}' cannot be called"
  | callArity name want found => s!"'{name}' takes {want} argument(s), {found} given"
  | plainSlot op field => s!"{op.sourceName} on non-atomic field '{field}'"
  | indexedSlot field => s!"atomic field '{field}' is not an array"
  | unindexedSlots field => s!"atomic array '{field}' used without an index"
  | atomicArity op found => s!"{op.sourceName} takes {op.arity} operand(s), {found} given"
  | atomicOperand op width found =>
    s!"{op.sourceName} operand must be {width.name} for a {width.bits}-bit slot, found {found.name}"
  | builtinArity func found =>
    s!"{func.sourceName} takes {func.arity} argument(s), {found} given"
  | badInit want name found => s!"cannot initialize {want.name} '{name}' with {found.name}"
  | badLocalName name => s!"'{name}' cannot be used as a local name"
  | redeclared name => s!"local '{name}' declared twice in one scope"
  | strayBreak => "'break' outside of a loop"
  | strayContinue => "'continue' outside of a loop"
  | badReturn method want found =>
    s!"'{method}' returns {returnName want}, found return of {returnName found}"
  | badInitializer => "for-loop initializers must be declarations or expressions"
  | badParamName name => s!"'{name}' cannot be used as a parameter name"
  | missingReturn method => s!"'{method}' can finish without returning a value"

end TypeFault

end GridKernel
