import GridKernel.Dispatch.Kernel
import GridKernel.Text.Decimal

/-!
# Values on the command line

Assignments of values to fields, `name=value`, and the values themselves.
-/

namespace GridKernel.Cli

inductive ArgumentFault where
  | notAssignment (text : String)
  | badValue (field text : String) (type : ScalarType)
  | badLength (field text : String)
  | badCount (field text : String)
  | notArray (field : String)
  | notScalar (field : String)
  deriving DecidableEq, Repr

def ArgumentFault.message : ArgumentFault → String
  | notAssignment text => s!"expected NAME=VALUE, got '{text}'"
  | badValue field text type => s!"{field}: '{text}' is not a valid {type.name}"
  | badLength field text => s!"{field}: bad length in '{text}'"
  | badCount field text => s!"{field}: bad slot count '{text}'"
  | notArray field => s!"'{field}' is not an array field"
  | notScalar field => s!"'{field}' is not a scalar field"

/-- The name and the value of an assignment, without the blanks around them. -/
def assignment (text : String) : Except ArgumentFault (String × String) :=
  match Text.splitOnce? '=' text with
  | some (name, value) => .ok (Text.trim name, Text.trim value)
  | none => .error (.notAssignment text)

def boolean? : String → Option Bool
  | "true" | "1" => some true
  | "false" | "0" => some false
  | _ => none

/-- A value of a type. Integers are read as 64-bit ones and decimals as doubles, and then
converted. -/
def value? (type : ScalarType) (text : String) : Option Value :=
  match type with
  | .boolean => (boolean? text).map .boolean
  | .float => (Text.double? text).map fun x => Value.cast .float (.double x)
  | .double => (Text.double? text).map .double
  | type => (Text.int64? text).map fun i => Value.cast type (.long i)

def parseValue (field : String) (type : ScalarType) (text : String) : Except ArgumentFault Value :=
  let text := Text.trim text
  match value? type text with
  | some v => .ok v
  | none => .error (.badValue field text type)

/-- The contents of an array: values with commas between them, or a number of zeros. -/
def parseBuffer (field : String) (type : ScalarType) (text : String) :
    Except ArgumentFault Buffer :=
  match Text.afterBeginning? "zeros:" text with
  | some count =>
    match Text.nat? (Text.trim count) with
    | some n => .ok (.zeroed type n)
    | none => .error (.badLength field text)
  | none => do
    let pieces := (Text.split ',' text).filter fun s => Text.trim s ≠ ""
    return .ofElements type (← pieces.mapM (parseValue field type))

def parseCount (field text : String) : Except ArgumentFault Nat :=
  match Text.nat? text with
  | some n => .ok n
  | none => .error (.badCount field text)

end GridKernel.Cli
