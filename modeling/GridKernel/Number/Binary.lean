/-!
# Binary floating-point numbers as bit patterns

`Binary32` and `Binary64` hold the bits of an IEEE 754 number, so that storing and loading one
never disturbs a NaN's payload or the sign of a zero. Arithmetic goes through the machine's own
operations, except the remainder, which is exact and is computed on integers here.

`Shape` is the mathematical view of a pattern: not a number, an infinity, or `± m · 2 ^ q`.
-/

namespace GridKernel

/-- The bits of a single-precision number. -/
structure Binary32 where
  bits : UInt32
  deriving DecidableEq, Repr, Inhabited

/-- The bits of a double-precision number. -/
structure Binary64 where
  bits : UInt64
  deriving DecidableEq, Repr, Inhabited

namespace Number

/-- Field widths of a binary interchange format. -/
structure Format where
  /-- Stored bits of the significand, the hidden one not counted. -/
  fraction : Nat
  /-- Bits of the biased exponent. -/
  exponent : Nat
  deriving DecidableEq, Repr

def single : Format := ⟨23, 8⟩

def double : Format := ⟨52, 11⟩

/-- The exponent of the last place of a subnormal number. -/
def Format.lowest (f : Format) : Int :=
  2 - (1 <<< (f.exponent - 1) : Nat) - f.fraction

/-- What a bit pattern stands for. A finite number is `± m · 2 ^ q`; `narrow` says that the next
number towards zero is only half as far away as the next number away from it. -/
inductive Shape where
  | nan
  | infinite (negative : Bool)
  | finite (negative : Bool) (m : Nat) (q : Int) (narrow : Bool)
  deriving DecidableEq, Repr

/-- Reads the sign, exponent and fraction fields of a pattern. -/
def Format.shape (f : Format) (bits : Nat) : Shape :=
  let low := bits % (1 <<< f.fraction)
  let biased := (bits >>> f.fraction) % (1 <<< f.exponent)
  let negative := (bits >>> (f.fraction + f.exponent)) % 2 == 1
  if biased == (1 <<< f.exponent) - 1 then
    if low == 0 then .infinite negative else .nan
  else if biased == 0 then
    .finite negative low f.lowest false
  else
    .finite negative ((1 <<< f.fraction) + low) (f.lowest + (biased - 1 : Nat))
      (low == 0 && biased > 1)

/-- The pattern of a quiet NaN. -/
def Format.quiet (f : Format) : Nat :=
  (((1 <<< f.exponent) - 1) <<< f.fraction) + (1 <<< (f.fraction - 1))

/-- The pattern of `± m · 2 ^ q`, for a number the format can represent. -/
def Format.pattern (f : Format) (negative : Bool) (m : Nat) (q : Int) : Nat :=
  let sign := if negative then 1 <<< (f.fraction + f.exponent) else 0
  if m == 0 then sign
  else
    let e := max (m.log2 + q - f.fraction) f.lowest
    let s := if q ≤ e then m >>> (e - q).toNat else m <<< (q - e).toNat
    if s < 1 <<< f.fraction then sign + s
    else sign + (((e - f.lowest).toNat + 1) <<< f.fraction) + (s - (1 <<< f.fraction))

/-- The exact remainder of a truncated division, with the sign of the dividend. -/
def Format.remainder (f : Format) (a b : Nat) : Nat :=
  match f.shape a, f.shape b with
  | .nan, _ => f.quiet
  | _, .nan => f.quiet
  | .infinite _, _ => f.quiet
  | .finite _ _ _ _, .infinite _ => a
  | .finite negative m q _, .finite _ n r _ =>
    if n == 0 then f.quiet
    else
      let e := min q r
      let x := m <<< (q - e).toNat
      let y := n <<< (r - e).toNat
      f.pattern negative (x % y) e

end Number

namespace Binary32

def ofFloat (f : Float32) : Binary32 := ⟨f.toBits⟩

def toFloat (x : Binary32) : Float32 := Float32.ofBits x.bits

def shape (x : Binary32) : Number.Shape := Number.single.shape x.bits.toNat

def isNaN (x : Binary32) : Bool := x.shape == .nan

def zero : Binary32 := ⟨0⟩

def one : Binary32 := ⟨0x3f800000⟩

def add (x y : Binary32) : Binary32 := ofFloat (x.toFloat + y.toFloat)

def sub (x y : Binary32) : Binary32 := ofFloat (x.toFloat - y.toFloat)

def mul (x y : Binary32) : Binary32 := ofFloat (x.toFloat * y.toFloat)

def div (x y : Binary32) : Binary32 := ofFloat (x.toFloat / y.toFloat)

def rem (x y : Binary32) : Binary32 :=
  ⟨UInt32.ofNat (Number.single.remainder x.bits.toNat y.bits.toNat)⟩

/-- Flips the sign bit, of a zero and a NaN too. -/
def neg (x : Binary32) : Binary32 := ⟨x.bits ^^^ 0x80000000⟩

/-- Clears the sign bit. -/
def abs (x : Binary32) : Binary32 := ⟨x.bits &&& 0x7fffffff⟩

def pow (x y : Binary32) : Binary32 := ofFloat (x.toFloat.pow y.toFloat)

/-- Numeric equality: zeros of either sign are equal, a NaN equals nothing. -/
def eq (x y : Binary32) : Bool := x.toFloat == y.toFloat

def lt (x y : Binary32) : Bool := decide (x.toFloat < y.toFloat)

def le (x y : Binary32) : Bool := decide (x.toFloat ≤ y.toFloat)

/-- The smaller number; the other operand when one is a NaN. -/
def min (x y : Binary32) : Binary32 :=
  if x.isNaN then y else if y.lt x then y else x

/-- The larger number; the other operand when one is a NaN. -/
def max (x y : Binary32) : Binary32 :=
  if x.isNaN then y else if x.lt y then y else x

end Binary32

namespace Binary64

def ofFloat (f : Float) : Binary64 := ⟨f.toBits⟩

def toFloat (x : Binary64) : Float := Float.ofBits x.bits

def shape (x : Binary64) : Number.Shape := Number.double.shape x.bits.toNat

def isNaN (x : Binary64) : Bool := x.shape == .nan

def isFinite (x : Binary64) : Bool :=
  match x.shape with
  | .finite _ _ _ _ => true
  | _ => false

def zero : Binary64 := ⟨0⟩

def one : Binary64 := ⟨0x3ff0000000000000⟩

def add (x y : Binary64) : Binary64 := ofFloat (x.toFloat + y.toFloat)

def sub (x y : Binary64) : Binary64 := ofFloat (x.toFloat - y.toFloat)

def mul (x y : Binary64) : Binary64 := ofFloat (x.toFloat * y.toFloat)

def div (x y : Binary64) : Binary64 := ofFloat (x.toFloat / y.toFloat)

def rem (x y : Binary64) : Binary64 :=
  ⟨UInt64.ofNat (Number.double.remainder x.bits.toNat y.bits.toNat)⟩

/-- Flips the sign bit, of a zero and a NaN too. -/
def neg (x : Binary64) : Binary64 := ⟨x.bits ^^^ 0x8000000000000000⟩

/-- Clears the sign bit. -/
def abs (x : Binary64) : Binary64 := ⟨x.bits &&& 0x7fffffffffffffff⟩

def pow (x y : Binary64) : Binary64 := ofFloat (x.toFloat.pow y.toFloat)

/-- Numeric equality: zeros of either sign are equal, a NaN equals nothing. -/
def eq (x y : Binary64) : Bool := x.toFloat == y.toFloat

def lt (x y : Binary64) : Bool := decide (x.toFloat < y.toFloat)

def le (x y : Binary64) : Bool := decide (x.toFloat ≤ y.toFloat)

/-- The smaller number; the other operand when one is a NaN. -/
def min (x y : Binary64) : Binary64 :=
  if x.isNaN then y else if y.lt x then y else x

/-- The larger number; the other operand when one is a NaN. -/
def max (x y : Binary64) : Binary64 :=
  if x.isNaN then y else if x.lt y then y else x

/-- Applies a function of the machine's math library. -/
def map (f : Float → Float) (x : Binary64) : Binary64 := ofFloat (f x.toFloat)

/-- The nearest single-precision number. -/
def toSingle (x : Binary64) : Binary32 := Binary32.ofFloat x.toFloat.toFloat32

/-- Rounds towards zero; out of range goes to the nearest end, a NaN to zero. -/
def toInt32 (x : Binary64) : Int32 := x.toFloat.toInt32

/-- Rounds towards zero; out of range goes to the nearest end, a NaN to zero. -/
def toInt64 (x : Binary64) : Int64 := x.toFloat.toInt64

/-- The nearest double-precision number. -/
def ofInt64 (i : Int64) : Binary64 := ofFloat i.toFloat

end Binary64

namespace Binary32

/-- The same number in double precision. -/
def toDouble (x : Binary32) : Binary64 := Binary64.ofFloat x.toFloat.toFloat

/-- The nearest single-precision number, rounded once. -/
def ofInt64 (i : Int64) : Binary32 := ofFloat i.toFloat32

/-- The nearest single-precision number, rounded once. -/
def ofUInt64 (n : UInt64) : Binary32 := ofFloat n.toFloat32

/-- Applies a double-precision function and rounds its result. -/
def viaDouble (f : Binary64 → Binary64) (x : Binary32) : Binary32 := (f x.toDouble).toSingle

end Binary32

end GridKernel
