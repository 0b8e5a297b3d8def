import GridKernel.Number.Decimal

/-!
# JSON values

A value keeps its numbers as written and its members in order, repeated keys included, so that a
reader can apply its own rules to them. `broken` stands for a string or an object whose text is
well formed but names half of a surrogate pair: it can be skipped and never be read.
-/

namespace GridKernel

/-- The sign written in an exponent. -/
inductive ExponentSign where
  | none
  | plus
  | minus
  deriving DecidableEq, Repr

/-- A JSON number as written: digits before and after the point, and the exponent. -/
structure Numeral where
  negative : Bool
  whole : List Char
  fraction : List Char := []
  exponent : Option (ExponentSign × List Char) := none
  deriving DecidableEq, Repr

inductive Json where
  | null
  | bool (value : Bool)
  | num (value : Numeral)
  | str (value : String)
  | broken
  | arr (items : List Json)
  | obj (members : List (String × Json))
  deriving Repr, Inhabited

namespace Numeral

/-- A number without fraction or exponent. -/
def ofInt (i : Int) : Numeral := ⟨i < 0, Number.digitsOf i.natAbs, [], none⟩

def ofNat (n : Nat) : Numeral := ⟨false, Number.digitsOf n, [], none⟩

/-- The integer a numeral stands for. A fraction or an exponent never makes an integer, and
neither does a minus sign before zero. -/
def toInt? (n : Numeral) : Option Int :=
  if n.fraction.isEmpty && n.exponent.isNone then
    let magnitude := Number.natOfDigits n.whole
    if n.negative then
      if magnitude == 0 then none else some (-(magnitude : Int))
    else some magnitude
  else none

/-- The exact decimal value, its sign aside. -/
def decimal (n : Numeral) : Number.Decimal :=
  let power : Int :=
    match n.exponent with
    | none => 0
    | some (.minus, ds) => -(Number.natOfDigits ds : Int)
    | some (_, ds) => Number.natOfDigits ds
  ⟨Number.natOfDigits (n.whole ++ n.fraction), power - n.fraction.length⟩

/-- The nearest double; a number beyond the largest double has none. -/
def toDouble? (n : Numeral) : Option Binary64 :=
  let x := Binary64.ofDecimal n.negative n.decimal
  if x.isFinite then some x else none

/-- The nearest single-precision number. An integer that fits in a 64-bit word is rounded once;
every other number is read as a double first, and one beyond the largest double has none. -/
def toSingle? (n : Numeral) : Option Binary32 :=
  let viaDouble : Option Binary32 := n.toDouble?.map Binary64.toSingle
  match n.toInt? with
  | none => viaDouble
  | some i =>
    if 0 ≤ i && i < UInt64.size then some (.ofUInt64 (.ofNat i.toNat))
    else if Int64.minValue.toInt ≤ i && i < 0 then some (.ofInt64 (.ofInt i))
    else viaDouble

/-- The exponents of the leading digit that are written without an exponent. -/
structure Window where
  least : Int
  greatest : Int
  deriving DecidableEq, Repr

/-- The shortest digits of a finite number, a half going to the even digit: positional with at
least one digit on either side of the point inside the window, and outside it one digit before
the point and a signed exponent. -/
def ofFinite (w : Window) (negative : Bool) (m : Nat) (q : Int) (narrow : Bool) : Numeral :=
  let d := Number.shortest .even m q narrow
  if w.least ≤ d.magnitude && d.magnitude ≤ w.greatest then
    let parts := d.positional
    ⟨negative, parts.1, if parts.2.isEmpty then ['0'] else parts.2, none⟩
  else
    let ds := Number.digitsOf d.digits
    let sign : ExponentSign := if d.magnitude < 0 then .minus else .plus
    ⟨negative, ds.take 1, ds.drop 1, some (sign, Number.digitsOf d.magnitude.natAbs)⟩

end Numeral

namespace Json

def int (i : Int) : Json := .num (.ofInt i)

def nat (n : Nat) : Json := .num (.ofNat n)

/-- Numbers that are not finite have no numeral and are written as `null`. -/
def ofShape (w : Numeral.Window) : Number.Shape → Json
  | .finite negative m q narrow => .num (.ofFinite w negative m q narrow)
  | _ => .null

/-- Single-precision numbers are positional from a millionth up to thirteen digits. -/
def ofSingle (x : Binary32) : Json := ofShape ⟨-6, 12⟩ x.shape

/-- Double-precision numbers are positional from a hundred-thousandth up to sixteen digits. -/
def ofDouble (x : Binary64) : Json := ofShape ⟨-5, 15⟩ x.shape

end Json

end GridKernel
