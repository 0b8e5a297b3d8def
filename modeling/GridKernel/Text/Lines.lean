/-!
# Lines of a text

A line ends at any of the characters that Unicode makes end one, and a carriage return with a line
feed after it ends one line. Nothing is lost: each line keeps the characters that end it.
-/

namespace GridKernel.Text

/-- Line feed, vertical tab, form feed, carriage return, next line, line and paragraph
separator. -/
def isLineEnd (c : Char) : Bool :=
  let n := c.toNat
  (0xa ≤ n && n ≤ 0xd) || n == 0x85 || n == 0x2028 || n == 0x2029

/-- The lines of a text. -/
def lines : List Char → List (List Char)
  | [] => []
  | '\r' :: '\n' :: rest => ['\r', '\n'] :: lines rest
  | c :: rest =>
    if isLineEnd c then [c] :: lines rest
    else match lines rest with
      | [] => [[c]]
      | line :: more => (c :: line) :: more

/-- A character of a text: the number of its line and its column, both from zero, and the line. -/
structure Spot where
  row : Nat
  column : Nat
  line : List Char
  deriving DecidableEq, Repr

/-- The spot of an offset; the end of the text belongs to the last line. -/
def locate (row offset : Nat) : List (List Char) → Spot
  | [] => ⟨row, offset, []⟩
  | [line] => ⟨row, offset, line⟩
  | line :: rest =>
    if offset < line.length then ⟨row, offset, line⟩
    else locate (row + 1) (offset - line.length) rest

end GridKernel.Text
