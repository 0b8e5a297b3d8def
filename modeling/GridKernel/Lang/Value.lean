import GridKernel.Lang.ScalarType
import GridKernel.Number.Decimal

/-!
# Typed scalars

A `Value` is a literal, a local's content or an array element. Conversion truncates integers,
saturates from floating point to integers, and reaches a type narrower than `int` through `int`.
-/

namespace GridKernel

inductive Value where
  | boolean (v : Bool)
  | byte (v : Int8)
  | short (v : Int16)
  | char (v : UInt16)
  | int (v : Int32)
  | long (v : Int64)
  | float (v : Binary32)
  | double (v : Binary64)
  deriving DecidableEq, Inhabited

namespace Value

def type : Value → ScalarType
  | boolean _ => .boolean
  | byte _ => .byte
  | short _ => .short
  | char _ => .char
  | int _ => .int
  | long _ => .long
  | float _ => .float
  | double _ => .double

def zero : ScalarType → Value
  | .boolean => boolean false
  | .byte => byte 0
  | .short => short 0
  | .char => char 0
  | .int => int 0
  | .long => long 0
  | .float => float .zero
  | .double => double .zero

/-- The amount of an increment. -/
def one : ScalarType → Value
  | .boolean => boolean true
  | .byte => byte 1
  | .short => short 1
  | .char => char 1
  | .int => int 1
  | .long => long 1
  | .float => float .one
  | .double => double .one

/-- Storage bits: signed integers are sign-extended, characters zero-extended, and
floating-point numbers keep their pattern. -/
def toBits : Value → UInt64
  | boolean v => if v then 1 else 0
  | byte v => v.toInt64.toUInt64
  | short v => v.toInt64.toUInt64
  | char v => v.toUInt64
  | int v => v.toInt64.toUInt64
  | long v => v.toUInt64
  | float v => v.bits.toUInt64
  | double v => v.bits

/-- The value of a type that storage bits stand for; bits beyond the type's width are dropped. -/
def ofBits (t : ScalarType) (bits : UInt64) : Value :=
  match t with
  | .boolean => boolean (bits != 0)
  | .byte => byte bits.toInt64.toInt8
  | .short => short bits.toInt64.toInt16
  | .char => char bits.toUInt16
  | .int => int bits.toInt64.toInt32
  | .long => long bits.toInt64
  | .float => float ⟨bits.toUInt32⟩
  | .double => double ⟨bits⟩

/-- The integer a value holds, if its type is integral. -/
def integer? : Value → Option Int64
  | byte v => some v.toInt64
  | short v => some v.toInt64
  | char v => some v.toUInt64.toInt64
  | int v => some v.toInt64
  | long v => some v
  | _ => none

def boolean? : Value → Option Bool
  | boolean v => some v
  | _ => none

/-- Narrows or widens an integer. -/
def ofInteger (t : ScalarType) (i : Int64) : Value :=
  match t with
  | .boolean => boolean (i != 0)
  | .byte => byte i.toInt8
  | .short => short i.toInt16
  | .char => char i.toUInt64.toUInt16
  | .int => int i.toInt32
  | .long => long i
  | .float => float (.ofInt64 i)
  | .double => double (.ofInt64 i)

/-- Converts a floating-point number. -/
def ofDouble (t : ScalarType) (x : Binary64) : Value :=
  match t with
  | .float => float x.toSingle
  | .double => double x
  | .long => long x.toInt64
  | _ => ofInteger t x.toInt32.toInt64

/-- Primitive conversion. A conversion to the value's own type changes nothing, and anything but
all-zero bits is true. -/
def cast (t : ScalarType) (v : Value) : Value :=
  if v.type = t then v
  else if t = .boolean then boolean (v.toBits != 0)
  else match v with
    | float x => ofDouble t x.toDouble
    | double x => ofDouble t x
    | boolean b => ofInteger t (if b then 1 else 0)
    | v => ofInteger t (v.integer?.getD 0)

/-- Numeric equality of two values of one type: zeros of either sign are equal. -/
def same : Value → Value → Bool
  | float x, float y => x.eq y
  | double x, double y => x.eq y
  | v, w => v = w

def intText (i : Int64) : String := toString i.toInt

/-- The text of a value in listings: a `long` ends in `L` and a `float` in `f`. -/
def text : Value → String
  | boolean true => "true"
  | boolean false => "false"
  | byte v => toString v.toInt
  | short v => toString v.toInt
  | char v => toString v.toNat
  | int v => toString v.toInt
  | long v => toString v.toInt ++ "L"
  | float v => v.plain ++ "f"
  | double v => v.plain

/-- A floating-point literal of OpenCL C: there is always a point, and what is not finite is
named. -/
def clFloating (shape : Number.Shape) (suffix : String) : String :=
  match shape with
  | .nan => "NAN"
  | .infinite false => "INFINITY"
  | .infinite true => "(-INFINITY)"
  | s =>
    let digits := s.plain
    digits ++ (if digits.toList.contains '.' then "" else ".0") ++ suffix

/-- The literal of OpenCL C. The least integers have no literal of their own and are written as
differences. -/
def clText : Value → String
  | boolean true => "1"
  | boolean false => "0"
  | byte v => "(char)" ++ toString v.toInt
  | short v => "(short)" ++ toString v.toInt
  | char v => "(unsigned short)" ++ toString v.toNat
  | int v => if v = Int32.minValue then "(-2147483647-1)" else toString v.toInt
  | long v =>
    if v = Int64.minValue then "(-9223372036854775807L-1L)" else toString v.toInt ++ "L"
  | float v => clFloating v.shape "f"
  | double v => clFloating v.shape ""

end Value

end GridKernel
