import GridKernel.Json.Basic
import GridKernel.Text.Hex

/-!
# JSON text

`compact` writes a value without blanks; `pretty` puts each item on a line of its own, indented
by two spaces a level.
-/

namespace GridKernel

namespace Numeral

def write (n : Numeral) : List Char :=
  let power : List Char :=
    match n.exponent with
    | none => []
    | some (.none, ds) => 'e' :: ds
    | some (.plus, ds) => 'e' :: '+' :: ds
    | some (.minus, ds) => 'e' :: '-' :: ds
  (if n.negative then ['-'] else []) ++ n.whole
    ++ (if n.fraction.isEmpty then [] else '.' :: n.fraction) ++ power

end Numeral

namespace Json

/-- Only the quote, the backslash and control characters are escaped. -/
def escape (c : Char) : List Char :=
  if c = '"' then ['\\', '"']
  else if c = '\\' then ['\\', '\\']
  else if c = '\x08' then ['\\', 'b']
  else if c = '\t' then ['\\', 't']
  else if c = '\n' then ['\\', 'n']
  else if c = '\x0c' then ['\\', 'f']
  else if c = '\r' then ['\\', 'r']
  else if c.toNat < 0x20 then
    ['\\', 'u', '0', '0', Hex.digit (c.toNat / 16), Hex.digit (c.toNat % 16)]
  else [c]

def quote (s : String) : List Char := '"' :: s.toList.flatMap escape ++ ['"']

mutual

/-- The text of a value without blanks. A broken value has no text of its own and is written as
an empty string. -/
def write : Json → List Char
  | .null => ['n', 'u', 'l', 'l']
  | .bool true => ['t', 'r', 'u', 'e']
  | .bool false => ['f', 'a', 'l', 's', 'e']
  | .num n => n.write
  | .str s => quote s
  | .broken => ['"', '"']
  | .arr [] => ['[', ']']
  | .arr (item :: items) => '[' :: write item ++ writeItems items
  | .obj [] => ['\x7b', '\x7d']
  | .obj ((key, value) :: members) =>
    '\x7b' :: quote key ++ ':' :: write value ++ writeMembers members

/-- The remaining items of an array and its closing bracket. -/
def writeItems : List Json → List Char
  | [] => [']']
  | item :: items => ',' :: write item ++ writeItems items

/-- The remaining members of an object and its closing brace. -/
def writeMembers : List (String × Json) → List Char
  | [] => ['\x7d']
  | (key, value) :: members => ',' :: quote key ++ ':' :: write value ++ writeMembers members

end

def compact (j : Json) : String := String.ofList j.write

def newline (depth : Nat) : List Char := '\n' :: List.replicate (2 * depth) ' '

mutual

def writePretty (depth : Nat) : Json → List Char
  | .arr (item :: items) =>
    '[' :: newline (depth + 1) ++ writePretty (depth + 1) item ++ prettyItems depth items
  | .obj ((key, value) :: members) =>
    '\x7b' :: newline (depth + 1) ++ quote key ++ ':' :: ' ' :: writePretty (depth + 1) value
      ++ prettyMembers depth members
  | j => j.write

def prettyItems (depth : Nat) : List Json → List Char
  | [] => newline depth ++ [']']
  | item :: items =>
    ',' :: newline (depth + 1) ++ writePretty (depth + 1) item ++ prettyItems depth items

def prettyMembers (depth : Nat) : List (String × Json) → List Char
  | [] => newline depth ++ ['\x7d']
  | (key, value) :: members =>
    ',' :: newline (depth + 1) ++ quote key ++ ':' :: ' ' :: writePretty (depth + 1) value
      ++ prettyMembers depth members

end

def pretty (j : Json) : String := String.ofList (writePretty 0 j)

end Json

end GridKernel
