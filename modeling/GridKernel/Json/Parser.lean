import GridKernel.Json.Basic
import GridKernel.Text.Hex

/-!
# Reading JSON text

A strict reader: no leading zeros, no raw control characters, no trailing commas, and nothing but
blanks after the value. Nesting is not limited here; who reads a value into a type of its own
sets the limit.
-/

namespace GridKernel.Json

/-- The four blanks that may stand between tokens. -/
def isBlank (c : Char) : Bool := c = ' ' || c = '\t' || c = '\n' || c = '\r'

def skipBlanks (cs : List Char) : List Char := cs.dropWhile isBlank

def isDigit (c : Char) : Bool := '0' ≤ c && c ≤ '9'

/-- A character of a string as written: itself, or a sixteen-bit unit from an escape. -/
inductive Piece where
  | char (c : Char)
  | unit (u : Nat)
  deriving DecidableEq, Repr

def simpleEscape? (c : Char) : Option Char :=
  if c = '"' then some '"'
  else if c = '\\' then some '\\'
  else if c = '/' then some '/'
  else if c = 'b' then some '\x08'
  else if c = 'f' then some '\x0c'
  else if c = 'n' then some '\n'
  else if c = 'r' then some '\r'
  else if c = 't' then some '\t'
  else none

/-- The pieces up to the closing quote, and what follows it. -/
def scanString : List Char → Option (List Piece × List Char)
  | [] => none
  | '"' :: rest => some ([], rest)
  | '\\' :: 'u' :: a :: b :: c :: d :: rest => do
    let a ← Hex.value? a
    let b ← Hex.value? b
    let c ← Hex.value? c
    let d ← Hex.value? d
    let (pieces, rest) ← scanString rest
    return (.unit (((a * 16 + b) * 16 + c) * 16 + d) :: pieces, rest)
  | '\\' :: c :: rest => do
    let c ← simpleEscape? c
    let (pieces, rest) ← scanString rest
    return (.char c :: pieces, rest)
  | c :: rest =>
    if c = '\\' || c.toNat < 0x20 then none
    else do
      let (pieces, rest) ← scanString rest
      return (.char c :: pieces, rest)

/-- Joins surrogate pairs; fails on half of one. -/
def joinPieces : List Piece → Option (List Char)
  | [] => some []
  | .char c :: rest => (joinPieces rest).map (c :: ·)
  | .unit u :: rest =>
    if 0xd800 ≤ u && u < 0xdc00 then
      match rest with
      | .unit v :: rest =>
        if 0xdc00 ≤ v && v < 0xe000 then
          (joinPieces rest).map (Char.ofNat (0x10000 + (u - 0xd800) * 0x400 + (v - 0xdc00)) :: ·)
        else none
      | _ => none
    else if 0xdc00 ≤ u && u < 0xe000 then none
    else (joinPieces rest).map (Char.ofNat u :: ·)

/-- Digits, of which there is at least one. -/
def scanDigits (cs : List Char) : Option (List Char × List Char) :=
  match cs.takeWhile isDigit with
  | [] => none
  | ds => some (ds, cs.dropWhile isDigit)

def scanFraction (cs : List Char) : Option (List Char × List Char) :=
  match cs with
  | '.' :: rest => scanDigits rest
  | _ => some ([], cs)

def scanExponent (cs : List Char) :
    Option (Option (ExponentSign × List Char) × List Char) :=
  let power (rest : List Char) : Option (Option (ExponentSign × List Char) × List Char) :=
    match rest with
    | '+' :: rest => (scanDigits rest).map fun (ds, r) => (some (.plus, ds), r)
    | '-' :: rest => (scanDigits rest).map fun (ds, r) => (some (.minus, ds), r)
    | _ => (scanDigits rest).map fun (ds, r) => (some (.none, ds), r)
  match cs with
  | 'e' :: rest => power rest
  | 'E' :: rest => power rest
  | _ => some (none, cs)

/-- A number: a zero stands alone before the point. -/
def scanNumber (negative : Bool) (cs : List Char) : Option (Numeral × List Char) := do
  let (whole, rest) ← match cs with
    | '0' :: rest => some (['0'], rest)
    | _ => scanDigits cs
  let (fraction, rest) ← scanFraction rest
  let (exponent, rest) ← scanExponent rest
  return (⟨negative, whole, fraction, exponent⟩, rest)

/-- A string value after its opening quote. -/
def scanText (cs : List Char) : Option (Option String × List Char) := do
  let (pieces, rest) ← scanString cs
  return ((joinPieces pieces).map String.ofList, rest)

/-- An object, unless one of its keys is broken. -/
def ofMembers (members : List (Option String × Json)) : Json :=
  match members.mapM fun (key, value) => key.map fun k => (k, value) with
  | some members => .obj members
  | none => .broken

mutual

/-- Reads one value; the number of steps left bounds the nesting. -/
def scanValue : Nat → List Char → Option (Json × List Char)
  | 0, _ => none
  | n + 1, cs =>
    match skipBlanks cs with
    | 'n' :: 'u' :: 'l' :: 'l' :: rest => some (.null, rest)
    | 't' :: 'r' :: 'u' :: 'e' :: rest => some (.bool true, rest)
    | 'f' :: 'a' :: 'l' :: 's' :: 'e' :: rest => some (.bool false, rest)
    | '"' :: rest => (scanText rest).map fun (s, r) => (s.elim .broken .str, r)
    | '-' :: rest => (scanNumber true rest).map fun (x, r) => (.num x, r)
    | '[' :: rest =>
      match skipBlanks rest with
      | ']' :: rest => some (.arr [], rest)
      | rest => do
        let (item, rest) ← scanValue n rest
        let (items, rest) ← scanItems n rest
        return (.arr (item :: items), rest)
    | '\x7b' :: rest =>
      match skipBlanks rest with
      | '\x7d' :: rest => some (.obj [], rest)
      | rest => do
        let (member, rest) ← scanMember n rest
        let (members, rest) ← scanMembers n rest
        return (ofMembers (member :: members), rest)
    | rest => (scanNumber false rest).map fun (x, r) => (.num x, r)

/-- The items after the first one, and the closing bracket. -/
def scanItems : Nat → List Char → Option (List Json × List Char)
  | 0, _ => none
  | n + 1, cs =>
    match skipBlanks cs with
    | ']' :: rest => some ([], rest)
    | ',' :: rest => do
      let (item, rest) ← scanValue n rest
      let (items, rest) ← scanItems n rest
      return (item :: items, rest)
    | _ => none

/-- A key, a colon and a value. -/
def scanMember : Nat → List Char → Option ((Option String × Json) × List Char)
  | 0, _ => none
  | n + 1, cs =>
    match skipBlanks cs with
    | '"' :: rest => do
      let (key, rest) ← scanText rest
      match skipBlanks rest with
      | ':' :: rest => do
        let (value, rest) ← scanValue n rest
        return ((key, value), rest)
      | _ => none
    | _ => none

/-- The members after the first one, and the closing brace. -/
def scanMembers : Nat → List Char → Option (List (Option String × Json) × List Char)
  | 0, _ => none
  | n + 1, cs =>
    match skipBlanks cs with
    | '\x7d' :: rest => some ([], rest)
    | ',' :: rest => do
      let (member, rest) ← scanMember n rest
      let (members, rest) ← scanMembers n rest
      return (member :: members, rest)
    | _ => none

end

/-- The value written by a text. Each step consumes a character, so twice the length is more
steps than any text needs. -/
def parse? (text : String) : Option Json :=
  let cs := text.toList
  match scanValue (2 * cs.length + 2) cs with
  | some (value, rest) => if (skipBlanks rest).isEmpty then some value else none
  | none => none

end GridKernel.Json
