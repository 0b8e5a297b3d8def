import GridKernel.Number.Binary

/-!
# The shortest decimal that reads back

Every finite binary number owns an interval of reals that round to it. `shortest?` finds the
coarsest decimal grid with a positive point in that interval and takes the point nearest to the
number; `Tie` says which of two equally near points wins.
-/

namespace GridKernel.Number

/-- Which of two equally near decimals is taken. -/
inductive Tie where
  | up
  | even
  deriving DecidableEq, Repr

/-- The number `digits · 10 ^ exponent`. -/
structure Decimal where
  digits : Nat
  exponent : Int
  deriving DecidableEq, Repr

/-- The point of the grid of step `10 ^ k` that is nearest to `m · 2 ^ q`, if the grid has a
positive point in the interval that rounds to it. Everything is scaled by four, so that the ends
of the interval are integers. -/
def onGrid? (tie : Tie) (m : Nat) (q : Int) (narrow : Bool) (k : Int) : Option Nat :=
  let scale := Nat.pow 10 (-k).toNat <<< (q - 2).toNat
  let step := Nat.pow 10 k.toNat <<< (2 - q).toNat
  let value := 4 * m * scale
  let low := (4 * m - if narrow then 1 else 2) * scale
  let high := (4 * m + 2) * scale
  let closed := m % 2 == 0
  let below := value / step
  let above := below + 1
  let belowFits : Bool :=
    below > 0 && (if closed then decide (low ≤ below * step) else decide (low < below * step))
  let aboveFits : Bool :=
    if closed then decide (above * step ≤ high) else decide (above * step < high)
  match belowFits, aboveFits with
  | false, false => none
  | true, false => some below
  | false, true => some above
  | true, true =>
    let down := value - below * step
    let up := above * step - value
    if down < up then some below
    else if up < down then some above
    else match tie with
      | .up => some above
      | .even => some (if below % 2 == 0 then below else above)

/-- Tries the grids `10 ^ k`, `10 ^ (k - 1)`, … in turn. -/
def coarsest (tie : Tie) (m : Nat) (q : Int) (narrow : Bool) : Nat → Int → Decimal
  | 0, k => ⟨0, k⟩
  | n + 1, k =>
    match onGrid? tie m q narrow k with
    | some d => ⟨d, k⟩
    | none => coarsest tie m q narrow n (k - 1)

/-- The shortest decimal that rounds to `m · 2 ^ q`. The first grid tried is coarser than the
number itself, and twenty-four finer ones follow, which is more than the seventeen digits a
double ever needs. -/
def shortest (tie : Tie) (m : Nat) (q : Int) (narrow : Bool) : Decimal :=
  if m == 0 then ⟨0, 0⟩
  else coarsest tie m q narrow 25 ((m.log2 + 1 + q) * 30103 / 100000 + 2)

/-- The decimal digits of a natural number. -/
def digitsOf (n : Nat) : List Char := Nat.toDigits 10 n

/-- The exponent of the leading digit. -/
def Decimal.magnitude (d : Decimal) : Int := (digitsOf d.digits).length - 1 + d.exponent

/-- Digits before and after the point when no exponent is written; the part before the point is
never empty. -/
def Decimal.positional (d : Decimal) : List Char × List Char :=
  let ds := digitsOf d.digits
  if d.exponent ≥ 0 then (ds ++ List.replicate d.exponent.toNat '0', [])
  else
    let places := (-d.exponent).toNat
    if places < ds.length then
      (ds.take (ds.length - places), ds.drop (ds.length - places))
    else (['0'], List.replicate (places - ds.length) '0' ++ ds)

end GridKernel.Number
