/-!
# Scalar types

The element types of locals, parameters, fields and arrays.
-/

namespace GridKernel

inductive ScalarType where
  | boolean
  | byte
  | short
  | char
  | int
  | long
  | float
  | double
  deriving DecidableEq, Repr, Inhabited

namespace ScalarType

def all : List ScalarType := [boolean, byte, short, char, int, long, float, double]

/-- The type's name in documents, listings and diagnostics. -/
def name : ScalarType → String
  | boolean => "boolean"
  | byte => "byte"
  | short => "short"
  | char => "char"
  | int => "int"
  | long => "long"
  | float => "float"
  | double => "double"

def ofName? (s : String) : Option ScalarType := all.find? (·.name == s)

/-- The type's spelling in OpenCL C. Booleans are stored in a byte. -/
def clName : ScalarType → String
  | boolean => "char"
  | byte => "char"
  | short => "short"
  | char => "unsigned short"
  | int => "int"
  | long => "long"
  | float => "float"
  | double => "double"

def isIntegral : ScalarType → Bool
  | byte | short | char | int | long => true
  | _ => false

def isFloating : ScalarType → Bool
  | float | double => true
  | _ => false

def isNumeric : ScalarType → Bool
  | boolean => false
  | _ => true

/-- The types that arithmetic operators accept. -/
def isPromoted : ScalarType → Bool
  | int | long | float | double => true
  | _ => false

/-- The types narrower than a machine word of the device. -/
def isSubword : ScalarType → Bool
  | boolean | byte | short | char => true
  | _ => false

def size : ScalarType → Nat
  | boolean | byte => 1
  | short | char => 2
  | int | float => 4
  | long | double => 8

end ScalarType

end GridKernel
