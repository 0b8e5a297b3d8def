import GridKernel.Number.Decimal

/-!
# Integers in settings and arguments

A sign is optional, the digits are the ten ASCII ones, and the value has to fit in a 64-bit word.
-/

namespace GridKernel.Text

/-- The number written by digits, of which there is at least one. -/
def digits? (cs : List Char) : Option Nat :=
  if cs.isEmpty || cs.any (fun c => !c.isDigit) then none else some (Number.natOfDigits cs)

/-- A natural number below `2 ^ 64`; it may carry a plus sign. -/
def nat? (s : String) : Option Nat :=
  let n := match s.toList with
    | '+' :: cs => digits? cs
    | cs => digits? cs
  n.filter (· < UInt64.size)

/-- A signed 64-bit integer. -/
def int64? (s : String) : Option Int64 :=
  let i : Option Int := match s.toList with
    | '-' :: cs => (digits? cs).map fun n => -(n : Int)
    | '+' :: cs => (digits? cs).map Int.ofNat
    | cs => (digits? cs).map Int.ofNat
  (i.filter fun i => Int64.minValue.toInt ≤ i && i ≤ Int64.maxValue.toInt).map Int64.ofInt

end GridKernel.Text
