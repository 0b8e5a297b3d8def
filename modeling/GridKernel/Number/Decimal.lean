import GridKernel.Number.Shortest

/-!
# Decimals read as binary numbers, and the plain text of a number

`ofDecimal` is the correctly rounded reading of `± digits · 10 ^ exponent`. `plain` writes the
shortest decimal without ever using an exponent.
-/

namespace GridKernel

namespace Number

/-- The natural number written by a list of decimal digits. -/
def natOfDigits (ds : List Char) : Nat :=
  ds.foldl (fun n c => 10 * n + (c.toNat - '0'.toNat)) 0

/-- How a finite number's shortest digits are laid out in kernel text: always positionally, and a
half goes up. -/
def plainDigits (negative : Bool) (m : Nat) (q : Int) (narrow : Bool) : String :=
  let parts := (shortest .up m q narrow).positional
  let point := if parts.2.isEmpty then [] else '.' :: parts.2
  String.ofList ((if negative then ['-'] else []) ++ parts.1 ++ point)

/-- The text of a number without an exponent. -/
def Shape.plain : Shape → String
  | .nan => "NaN"
  | .infinite true => "-inf"
  | .infinite false => "inf"
  | .finite negative m q narrow => plainDigits negative m q narrow

end Number

def Binary32.plain (x : Binary32) : String := x.shape.plain

def Binary64.plain (x : Binary64) : String := x.shape.plain

/-- The double nearest to `± digits · 10 ^ exponent`. Exponents far outside the format's range are
settled before any power of ten is formed. -/
def Binary64.ofDecimal (negative : Bool) (d : Number.Decimal) : Binary64 :=
  let size := (Number.digitsOf d.digits).length + d.exponent
  let magnitude : Binary64 :=
    if d.digits == 0 || size < -400 then .zero
    else if size > 400 then ⟨0x7ff0000000000000⟩
    else .ofFloat (Float.ofScientific d.digits (d.exponent < 0) d.exponent.natAbs)
  if negative then magnitude.neg else magnitude

end GridKernel
