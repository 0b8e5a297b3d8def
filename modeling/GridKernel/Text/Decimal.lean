import GridKernel.Text.Blank
import GridKernel.Text.Integer

/-!
# Decimals in arguments

A sign, digits with an optional point, of which there is at least one on either side, and an
exponent. Infinity and NaN are spelled out, in small letters or capitals.
-/

namespace GridKernel.Text

/-- A sign, if there is one, and what follows it. -/
def takeSign : List Char → Bool × List Char
  | '-' :: cs => (true, cs)
  | '+' :: cs => (false, cs)
  | cs => (false, cs)

/-- The digits at the front and what follows them. -/
def takeDigits (cs : List Char) : List Char × List Char :=
  (cs.takeWhile Char.isDigit, cs.dropWhile Char.isDigit)

/-- The digits before and after the point, and what follows. -/
def takeMantissa (cs : List Char) : Option (List Char × List Char × List Char) :=
  let (whole, rest) := takeDigits cs
  let (fraction, rest) := match rest with
    | '.' :: rest => takeDigits rest
    | rest => ([], rest)
  if whole.isEmpty && fraction.isEmpty then none else some (whole, fraction, rest)

/-- The value of an exponent, which extends to the end. -/
def exponent? : List Char → Option Int
  | [] => some 0
  | c :: cs =>
    if c = 'e' || c = 'E' then
      let (negative, ds) := takeSign cs
      (digits? ds).map fun (n : Nat) => if negative then -(n : Int) else n
    else none

def decimal? (cs : List Char) : Option Number.Decimal := do
  let (whole, fraction, rest) ← takeMantissa cs
  let e ← exponent? rest
  return ⟨Number.natOfDigits (whole ++ fraction), e - fraction.length⟩

/-- The double that a text denotes. -/
def double? (s : String) : Option Binary64 :=
  let (negative, cs) := takeSign s.toList
  let signed (x : Binary64) : Binary64 := if negative then x.neg else x
  match lower (String.ofList cs) with
  | "inf" | "infinity" => some (signed ⟨0x7ff0000000000000⟩)
  | "nan" => some (signed ⟨0x7ff8000000000000⟩)
  | _ => (decimal? cs).map (Binary64.ofDecimal negative)

end GridKernel.Text
