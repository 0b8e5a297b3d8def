/-!
# Blanks and simple text rules

The characters that count as white space, trimming, and cutting a text at a separator.
-/

namespace GridKernel.Text

/-- The Unicode property `White_Space`. -/
def isBlank (c : Char) : Bool :=
  let n := c.toNat
  (0x9 ≤ n && n ≤ 0xd) || n == 0x20 || n == 0x85 || n == 0xa0 || n == 0x1680
    || (0x2000 ≤ n && n ≤ 0x200a) || n == 0x2028 || n == 0x2029 || n == 0x202f
    || n == 0x205f || n == 0x3000

/-- Drops the blanks at both ends. -/
def trim (s : String) : String :=
  String.ofList ((s.toList.dropWhile isBlank).reverse.dropWhile isBlank).reverse

/-- Maps the ASCII capitals to small letters. -/
def lower (s : String) : String := s.map Char.toLower

/-- The pieces between separators; there is always at least one. -/
def splitAt (separator : Char) (cs : List Char) : List (List Char) :=
  cs.foldr
    (fun c pieces =>
      if c = separator then [] :: pieces
      else match pieces with
        | piece :: rest => (c :: piece) :: rest
        | [] => [[c]])
    [[]]

/-- The pieces of a text between separators. -/
def split (separator : Char) (s : String) : List String :=
  (splitAt separator s.toList).map String.ofList

/-- The parts before and after the first separator. -/
def splitOnce? (separator : Char) (s : String) : Option (String × String) :=
  let before := s.toList.takeWhile (· ≠ separator)
  match s.toList.drop before.length with
  | _ :: after => some (String.ofList before, String.ofList after)
  | [] => none

/-- Joins texts with a separator between them. -/
def join (separator : String) : List String → String
  | [] => ""
  | [s] => s
  | s :: rest => s ++ separator ++ join separator rest

/-- The part of a text after a given beginning. -/
def afterBeginning? (beginning s : String) : Option String :=
  if beginning.toList.isPrefixOf s.toList then
    some (String.ofList (s.toList.drop beginning.length))
  else none

def startsWith (beginning s : String) : Bool := (afterBeginning? beginning s).isSome

end GridKernel.Text
