import GridKernel.Lang.Traverse
import GridKernel.Text.Blank

/-!
# Listings

The readable form of expressions, and of methods with one statement per line. A listing keeps,
for every statement in order of its ordinal, the bytes its header occupies.
-/

namespace GridKernel

mutual

def Expr.text : Expr → String
  | .literal value => value.text
  | .var name => name
  | .field name => "this." ++ name
  | .element array index => "this." ++ array ++ "[" ++ index.text ++ "]"
  | .length array => "this." ++ array ++ ".length"
  | .binary op lhs rhs => "(" ++ lhs.text ++ " " ++ op.symbol ++ " " ++ rhs.text ++ ")"
  | .unary op operand => op.symbol ++ operand.text
  | .conditional cond thenValue elseValue =>
    "(" ++ cond.text ++ " ? " ++ thenValue.text ++ " : " ++ elseValue.text ++ ")"
  | .cast type value _ => "(" ++ type.name ++ ")" ++ value.text
  | .assign target (some op) value => target.text ++ " " ++ op.symbol ++ "= " ++ value.text
  | .assign target none value => target.text ++ " = " ++ value.text
  | .step target op true => op.symbol ++ target.text
  | .step target op false => target.text ++ op.symbol
  | .call method args => method ++ "(" ++ Text.join ", " (Expr.texts args) ++ ")"
  | .atomic op slot args =>
    op.sourceName ++ "(" ++ Text.join ", " (slot.text :: Expr.texts args) ++ ")"
  | .builtin func args => func.sourceName ++ "(" ++ Text.join ", " (Expr.texts args) ++ ")"

def Place.text : Place Expr → String
  | .var name => name
  | .field name => "this." ++ name
  | .element array index => "this." ++ array ++ "[" ++ index.text ++ "]"

def SlotRef.text : SlotRef Expr → String
  | ⟨field, index⟩ => "this." ++ field ++ Expr.indexText index

def Expr.indexText : Option Expr → String
  | some index => "[" ++ index.text ++ "]"
  | none => ""

def Expr.texts : List Expr → List String
  | [] => []
  | e :: rest => e.text :: Expr.texts rest

end

/-- The first line of a statement. The initializers of a `for` are listed in its body. -/
def Stmt.header : Stmt → String
  | .declare name type (some init) => type.name ++ " " ++ name ++ " = " ++ init.text ++ ";"
  | .declare name type none => type.name ++ " " ++ name ++ ";"
  | .expr e => e.text ++ ";"
  | .branch cond _ _ => "if (" ++ cond.text ++ ") \x7b"
  | .whileLoop cond _ => "while (" ++ cond.text ++ ") \x7b"
  | .doWhile _ _ => "do \x7b"
  | .forLoop _ cond update _ =>
    "for (...; " ++ (cond.elim "" Expr.text) ++ "; " ++ Text.join ", " (update.map Expr.text)
      ++ ") \x7b"
  | .breakLoop => "break;"
  | .continueLoop => "continue;"
  | .ret (some value) => "return " ++ value.text ++ ";"
  | .ret none => "return;"
  | .block _ => "\x7b"

/-- A line of a listing; `start` says that a statement begins on it. -/
structure ListingLine where
  depth : Nat
  text : String
  start : Bool
  deriving DecidableEq, Repr

mutual

/-- The lines of a statement at a depth. -/
def Stmt.lines (depth : Nat) : Stmt → List ListingLine
  | .branch cond thenBody elseBody =>
    ⟨depth, (Stmt.branch cond thenBody elseBody).header, true⟩
      :: (Stmt.allLines (depth + 1) thenBody
        ++ (if elseBody.isEmpty then [] else
          ⟨depth, "\x7d else \x7b", false⟩ :: Stmt.allLines (depth + 1) elseBody)
        ++ [⟨depth, "\x7d", false⟩])
  | .whileLoop cond body =>
    ⟨depth, (Stmt.whileLoop cond body).header, true⟩
      :: (Stmt.allLines (depth + 1) body ++ [⟨depth, "\x7d", false⟩])
  | .doWhile body cond =>
    ⟨depth, (Stmt.doWhile body cond).header, true⟩
      :: (Stmt.allLines (depth + 1) body
        ++ [⟨depth, "\x7d while (" ++ cond.text ++ ");", false⟩])
  | .forLoop init cond update body =>
    ⟨depth, (Stmt.forLoop init cond update body).header, true⟩
      :: (Stmt.allLines (depth + 1) init ++ Stmt.allLines (depth + 1) body
        ++ [⟨depth, "\x7d", false⟩])
  | .block body =>
    ⟨depth, (Stmt.block body).header, true⟩
      :: (Stmt.allLines (depth + 1) body ++ [⟨depth, "\x7d", false⟩])
  | s => [⟨depth, s.header, true⟩]

def Stmt.allLines (depth : Nat) : List Stmt → List ListingLine
  | [] => []
  | s :: rest => s.lines depth ++ Stmt.allLines depth rest

end

/-- A half-open range of byte offsets. -/
structure Span where
  start : Nat
  stop : Nat
  deriving DecidableEq, Repr

structure Listing where
  text : String
  /-- One span per statement, in order of the ordinals. -/
  spans : List Span
  deriving DecidableEq, Repr

/-- Four spaces a level. -/
def ListingLine.write (l : ListingLine) : String :=
  String.ofList (List.replicate (4 * l.depth) ' ') ++ l.text ++ "\n"

/-- The spans of the statements that begin on these lines, of which the first starts at the given
offset. -/
def ListingLine.spans : Nat → List ListingLine → List Span
  | _, [] => []
  | offset, l :: rest =>
    let tail := ListingLine.spans (offset + l.write.utf8ByteSize) rest
    if l.start then
      ⟨offset + 4 * l.depth, offset + 4 * l.depth + l.text.utf8ByteSize⟩ :: tail
    else tail

def Param.text (p : Param) : String := p.type.name ++ " " ++ p.name

/-- The first line of a method. -/
def Method.header (m : Method) : String :=
  m.ret.elim "void" ScalarType.name ++ " " ++ m.name ++ "("
    ++ Text.join ", " (m.params.map Param.text) ++ ") \x7b"

def Method.listing (m : Method) : Listing :=
  let head := m.header ++ "\n"
  let lines := Stmt.allLines 1 m.body
  ⟨head ++ String.join (lines.map ListingLine.write) ++ "\x7d\n",
    ListingLine.spans head.utf8ByteSize lines⟩

end GridKernel
