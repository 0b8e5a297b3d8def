/-!
# Hexadecimal text

Small letters on writing, either case on reading.
-/

namespace GridKernel.Hex

def digit (n : Nat) : Char :=
  if n < 10 then Char.ofNat ('0'.toNat + n) else Char.ofNat ('a'.toNat + (n - 10))

def value? (c : Char) : Option Nat :=
  if '0' ≤ c && c ≤ '9' then some (c.toNat - '0'.toNat)
  else if 'a' ≤ c && c ≤ 'f' then some (c.toNat - 'a'.toNat + 10)
  else if 'A' ≤ c && c ≤ 'F' then some (c.toNat - 'A'.toNat + 10)
  else none

/-- The low digits of a number, as many as asked for. -/
def digits : Nat → Nat → List Char
  | 0, _ => []
  | width + 1, n => digits width (n / 16) ++ [digit (n % 16)]

def ofNat (width n : Nat) : String := String.ofList (digits width n)

/-- The number written by hexadecimal digits. -/
def nat? (cs : List Char) : Option Nat :=
  cs.foldlM (fun n c => (value? c).map fun d => 16 * n + d) 0

/-- Two digits per byte. -/
def ofBytes (bytes : List UInt8) : String :=
  String.ofList (bytes.flatMap fun b => digits 2 b.toNat)

/-- The bytes written by pairs of digits. -/
def bytes? : List Char → Option (List UInt8)
  | [] => some []
  | [_] => none
  | a :: b :: rest => do
    let high ← value? a
    let low ← value? b
    return (16 * high + low).toUInt8 :: (← bytes? rest)

end GridKernel.Hex
