import GridKernel.Text.Blank
import GridKernel.Text.Lines

/-!
# Snippets

Lines of a text with a message attached to a part of them. A part of one line is underlined and the
message hangs on a stem at its middle; a part that goes over several lines has a bracket at the
left, and of the lines between its ends only a gap is shown.
-/

namespace GridKernel.Diagnostic

def spaces (n : Nat) : String := String.ofList (List.replicate n ' ')

def dashes (n : Nat) : String := String.ofList (List.replicate n '─')

namespace Snippet

/-- The distance between tab stops. -/
def tabStop : Nat := 4

/-- The cells that the character of a column takes: a tab goes to the next stop, and every other
character of a listing takes one cell. -/
def cellWidth (column : Nat) (c : Char) : Nat :=
  if c = '\t' then tabStop - column % tabStop else 1

/-- A line without the blanks at its end. -/
def visible (line : List Char) : List Char := (line.reverse.dropWhile Text.isBlank).reverse

/-- A line as it is shown, from a column on; blanks of all kinds are shown as spaces. -/
def shownFrom : Nat → List Char → List Char
  | _, [] => []
  | column, c :: rest =>
    (if Text.isBlank c then List.replicate (cellWidth column c) ' ' else [c])
      ++ shownFrom (column + 1) rest

def shown (line : List Char) : String := String.ofList (shownFrom 0 (visible line))

/-- What stands in a column below a line: its first cell, and the cells after it. -/
structure Mark where
  head : Char
  tail : Char
  deriving DecidableEq, Repr

def Mark.both (c : Char) : Mark := ⟨c, c⟩

/-- The marks below `count` columns of a line, from a column on. -/
def below (mark : Nat → Mark) : Nat → Nat → List Char → List Char
  | _, 0, _ => []
  | column, count + 1, [] => (mark column).head :: below mark (column + 1) count []
  | column, count + 1, c :: rest =>
    (mark column).head :: List.replicate (cellWidth column c - 1) (mark column).tail
      ++ below mark (column + 1) count rest

def marks (mark : Nat → Mark) (count : Nat) (line : List Char) : String :=
  String.ofList (below mark 0 count (visible line))

/-- The underline of the columns from `first` to before `stop`, with a stem. -/
def underline (first stop stem column : Nat) : Mark :=
  if column = stem then ⟨'┬', '─'⟩
  else if first ≤ column && column < stop then .both '─'
  else .both ' '

/-- The line from the stem to the message. -/
def arm (stem column : Nat) : Mark :=
  if column = stem then ⟨'╰', '─'⟩ else if stem < column then .both '─' else .both ' '

/-- The part of a text that a message is about: where it starts and where its last character is. -/
structure Part where
  first : Text.Spot
  last : Text.Spot
  /-- The number of its characters. -/
  size : Nat
  deriving DecidableEq, Repr

namespace Part

/-- The part of a text between two offsets, unless it is not inside the text. -/
def of? (text : List Char) (start stop : Nat) : Option Part :=
  let last := if start < stop then stop - 1 else start
  if text.length < last then none
  else
    let ls := Text.lines text
    some ⟨Text.locate 0 start ls, Text.locate 0 last ls, stop - start⟩

def isOneLine (p : Part) : Bool := p.first.row = p.last.row

/-- The width of the line numbers. -/
def numberWidth (p : Part) : Nat := (toString (p.last.row + 1)).length

/-- The margin of lines without a number. -/
def margin (p : Part) : String := spaces (p.numberWidth + 2)

/-- The margin of a line of the text. -/
def numbered (p : Part) (row : Nat) : String :=
  let number := toString (row + 1)
  spaces (p.numberWidth + 1 - number.length) ++ number ++ " │ "

/-- The free columns after the text, below which the line to a message goes on. -/
def overhang : Nat := 2

def drawOneLine (p : Part) (message : String) : String :=
  let first := p.first.column
  let stop := first + p.size
  let stem := first + p.size / 2
  let line := p.first.line
  p.numbered p.first.row ++ shown line ++ "\n"
    ++ p.margin ++ "│ " ++ marks (underline first stop stem) (stop + overhang) line ++ "\n"
    ++ p.margin ++ "│ " ++ marks (arm stem) (stop + overhang) line ++ " " ++ message ++ "\n"

def drawBracket (p : Part) (message : String) : String :=
  let line := p.last.line
  let count := line.length + overhang
  let gap := if p.first.row + 1 < p.last.row then p.margin ++ "┆ ┆   \n" else ""
  p.numbered p.first.row ++ "╭─▶ " ++ shown p.first.line ++ "\n"
    ++ gap
    ++ p.numbered p.last.row ++ "├─▶ " ++ shown line ++ "\n"
    ++ p.margin ++ "│ │   " ++ marks (fun _ => .both ' ') count line ++ "\n"
    ++ p.margin ++ "│ ╰───" ++ marks (fun _ => .both '─') count line ++ " " ++ message ++ "\n"

/-- The lines of the part with a message. -/
def draw (p : Part) (message : String) : String :=
  if p.isOneLine then p.drawOneLine message else p.drawBracket message

/-- A remark below the lines, as far to the right as they are. -/
def remark (p : Part) (word text : String) : String :=
  let indent := p.margin ++ "│ " ++ if p.isOneLine then "" else spaces 4
  indent ++ "\n" ++ indent ++ word ++ ": " ++ text ++ "\n"

end Part

end Snippet

end GridKernel.Diagnostic
