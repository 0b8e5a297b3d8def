import GridKernel.Target.Syntax

/-!
# Text of target programs

Three spaces a level, one statement per line.
-/

namespace GridKernel.Target

/-- The name of a helper's function. -/
def helperName (stem method : String) : String := stem ++ "__" ++ method

def tempName (n : Nat) : String := "_tmp" ++ toString n

def lengthName (array : String) : String := array ++ "__length"

def queryName : Builtin → String
  | .globalId => "get_global_id"
  | .localId => "get_local_id"
  | .groupId => "get_group_id"
  | .globalSize => "get_global_size"
  | .localSize => "get_local_size"
  | .numGroups => "get_num_groups"
  | f => f.name

def Callee.name (stem : String) : Callee → String
  | .helper method => helperName stem method
  | .passId => "get_pass_id"
  | .atomic op width => op.clFunction width
  | .convert .int => "convert_int_sat_rtz"
  | .convert .long => "convert_long_sat_rtz"
  | .query func => queryName func
  | .math name => name

/-- Whether a function takes the kernel's state as its first argument. -/
def Callee.takesState : Callee → Bool
  | .helper _ | .passId => true
  | _ => false

/-! ## Tokens -/

/-- A piece of the text of a target program. -/
inductive Token where
  /-- A word that the printer writes of its own. -/
  | own (word : String)
  /-- The name of a field, a parameter or a local. -/
  | user (name : String)
  | numeral (text : String)
  /-- Blanks and punctuation. -/
  | mark (text : String)
  deriving DecidableEq, Repr

namespace Token

def text : Token → String
  | own word => word
  | user name => name
  | numeral text => text
  | mark text => text

/-- What the tokens spell. -/
def spell (ts : List Token) : String := String.join (ts.map text)

/-- Lists of tokens with commas between them. -/
def joined : List (List Token) → List Token
  | [] => []
  | [ts] => ts
  | ts :: rest => ts ++ mark ", " :: joined rest

end Token

def typeTokens : ScalarType → List Token
  | .char => [.own "unsigned", .mark " ", .own "short"]
  | t => [.own t.clName]

/-- The unsigned type as wide as an integer type. -/
def unsignedTokens : ScalarType → List Token
  | .long => [.own "ulong"]
  | _ => [.own "unsigned", .mark " ", .own "int"]

def floatingTokens (shape : Number.Shape) (suffix : String) : List Token :=
  match shape with
  | .nan => [.own "NAN"]
  | .infinite false => [.own "INFINITY"]
  | .infinite true => [.mark "(-", .own "INFINITY", .mark ")"]
  | .finite negative m q narrow =>
    [.numeral (Value.clFloating (.finite negative m q narrow) suffix)]

def valueTokens : Value → List Token
  | .boolean v => [.numeral (Value.boolean v).clText]
  | .byte v => [.mark "(", .own "char", .mark ")", .numeral (toString v.toInt)]
  | .short v => [.mark "(", .own "short", .mark ")", .numeral (toString v.toInt)]
  | .char v =>
    [.mark "(", .own "unsigned", .mark " ", .own "short", .mark ")", .numeral (toString v.toNat)]
  | .int v => [.numeral (Value.int v).clText]
  | .long v => [.numeral (Value.long v).clText]
  | .float v => floatingTokens v.shape "f"
  | .double v => floatingTokens v.shape ""

/-! ## Expressions -/

mutual

def Expr.tokens (stem : String) : Expr → List Token
  | .literal value => valueTokens value
  | .var name => [.user name]
  | .temp n => [.own (tempName n)]
  | .member name => [.own "this", .mark "->", .user name]
  | .lengthOf array => [.own "this", .mark "->", .own (lengthName array)]
  | .element array index =>
    .own "this" :: .mark "->" :: .user array :: .mark "[" :: (index.tokens stem ++ [.mark "]"])
  | .addressOf array index =>
    .mark "&" :: .own "this" :: .mark "->" :: .user array :: .mark "["
      :: (index.tokens stem ++ [.mark "]"])
  | .paren e => .mark "(" :: (e.tokens stem ++ [.mark ")"])
  | .binary op lhs rhs => lhs.tokens stem ++ .mark (" " ++ op.symbol ++ " ") :: rhs.tokens stem
  | .shiftUnsigned type lhs rhs =>
    .mark "(" :: (typeTokens type ++ .mark ")((" :: (unsignedTokens type ++ .mark ")"
      :: (lhs.tokens stem ++ .mark " >> " :: (rhs.tokens stem ++ [.mark ")"]))))
  | .unary op operand => .mark op.symbol :: operand.tokens stem
  | .conditional cond thenValue elseValue =>
    cond.tokens stem ++ .mark " ? " :: (thenValue.tokens stem ++ .mark " : "
      :: elseValue.tokens stem)
  | .cast type value => .mark "(" :: (typeTokens type ++ .mark ")" :: value.tokens stem)
  | .call callee args =>
    .own (callee.name stem) :: .mark "("
      :: (Token.joined ((if callee.takesState then [[.own "this"]] else [])
        ++ Expr.allTokens stem args) ++ [.mark ")"])
  | .assign target value => target.tokens stem ++ .mark " = " :: value.tokens stem
  | .compound op target value =>
    target.tokens stem ++ .mark (" " ++ op.symbol ++ "= ") :: value.tokens stem
  | .step op true target => .mark op.symbol :: target.tokens stem
  | .step op false target => target.tokens stem ++ [.mark op.symbol]
  | .comma first value =>
    .mark "(" :: (Token.joined (Expr.allTokens stem first ++ [value.tokens stem]) ++ [.mark ")"])

def Expr.allTokens (stem : String) : List Expr → List (List Token)
  | [] => []
  | e :: rest => e.tokens stem :: Expr.allTokens stem rest

end

def Expr.text (stem : String) (e : Expr) : String := Token.spell (e.tokens stem)

/-! ## Statements -/

def declareTokens (stem : String) (type : ScalarType) (name : String) (init : Option Expr) :
    List Token :=
  typeTokens type ++ .mark " " :: .user name
    :: init.elim [] fun e => .mark " = " :: e.tokens stem

def ForInit.tokens (stem : String) : ForInit → List Token
  | .declare type name init => declareTokens stem type name init
  | .expr e => e.tokens stem

/-- A line, and how much deeper it stands than what it belongs to. -/
abbrev Line := Nat × List Token

/-- Lines that stand deeper than the line before them and the lines after them. -/
def nested (head : List Token) (inner foot : List Line) : List Line :=
  (0, head) :: (inner.map (fun l => (l.1 + 1, l.2)) ++ foot)

def closing : List Line := [(0, [.mark "\x7d"])]

mutual

def Stmt.tokens (stem : String) : Stmt → List Line
  | .declare type name init => [(0, declareTokens stem type name init ++ [.mark ";"])]
  | .expr e => [(0, e.tokens stem ++ [.mark ";"])]
  | .branch cond thenBody elseBody =>
    nested (.own "if" :: .mark " (" :: (cond.tokens stem ++ [.mark ")\x7b"]))
      (Stmt.allTokens stem thenBody)
      (if elseBody.isEmpty then closing else
        nested [.mark "\x7d ", .own "else", .mark " \x7b"] (Stmt.allTokens stem elseBody) closing)
  | .whileLoop cond body =>
    nested (.own "while" :: .mark " (" :: (cond.tokens stem ++ [.mark ")\x7b"]))
      (Stmt.allTokens stem body) closing
  | .doWhile body cond =>
    nested [.own "do", .mark " \x7b"] (Stmt.allTokens stem body)
      [(0, .mark "\x7d " :: .own "while" :: .mark " (" :: (cond.tokens stem ++ [.mark ");"]))]
  | .forLoop init cond update body =>
    nested (.own "for" :: .mark " (" :: (init.elim [] (ForInit.tokens stem) ++ .mark "; "
        :: (cond.elim [] (Expr.tokens stem) ++ .mark "; "
          :: (Token.joined (Expr.allTokens stem update) ++ [.mark ")\x7b"]))))
      (Stmt.allTokens stem body) closing
  | .breakLoop => [(0, [.own "break", .mark ";"])]
  | .continueLoop => [(0, [.own "continue", .mark ";"])]
  | .ret none => [(0, [.own "return", .mark ";"])]
  | .ret (some e) => [(0, .own "return" :: .mark " " :: (e.tokens stem ++ [.mark ";"]))]
  | .block body => nested [.mark "\x7b"] (Stmt.allTokens stem body) closing

def Stmt.allTokens (stem : String) : List Stmt → List Line
  | [] => []
  | s :: rest => s.tokens stem ++ Stmt.allTokens stem rest

end

def indent (depth : Nat) (line : String) : String :=
  String.ofList (List.replicate (3 * depth) ' ') ++ line

def Stmt.allLines (stem : String) (depth : Nat) (stmts : List Stmt) : List String :=
  (Stmt.allTokens stem stmts).map fun l => indent (depth + l.1) (Token.spell l.2)

/-! ## Programs -/

/-- The temporaries' declarations, then the statements. -/
def Body.lines (stem : String) (depth : Nat) (b : Body) : List String :=
  (b.temps.zipIdx.map fun (t, n) => indent depth (t.clName ++ " " ++ tempName n ++ ";"))
    ++ Stmt.allLines stem depth b.stmts

def Member.name : Member → String
  | .scalar _ name => name
  | .array _ _ name => name
  | .slots _ _ name => name
  | .length owner => lengthName owner
  | .passId => "passid"

def Member.decl : Member → String
  | .scalar type name => type.clName ++ " " ++ name
  | .array space type name => space.clQualifier ++ " " ++ type.clName ++ " *" ++ name
  | .slots scope width name => "volatile " ++ scope.clQualifier ++ " " ++ width.name ++ " *" ++ name
  | .length owner => "int " ++ lengthName owner
  | .passId => "int passid"

def Extension.pragma (e : Extension) : String :=
  let name := match e with
    | .double => "cl_khr_fp64"
    | .longAtomicsBase => "cl_khr_int64_base_atomics"
    | .longAtomicsExtended => "cl_khr_int64_extended_atomics"
    | .byteStores => "cl_khr_byte_addressable_store"
  "#pragma OPENCL EXTENSION " ++ name ++ " : enable"

/-- A helper's head, shared by its prototype and its definition. -/
def Helper.signature (stem : String) (h : Helper) : String :=
  h.ret.elim "void" ScalarType.clName ++ " " ++ helperName stem h.method ++ "("
    ++ Text.join ", " ("This *this" :: h.params.map fun p => p.type.clName ++ " " ++ p.name)
    ++ ")"

def Helper.lines (stem : String) (h : Helper) : List String :=
  (h.signature stem ++ "\x7b") :: (h.body.lines stem 1 ++ ["\x7d", ""])

/-- The parameters of the kernel function, a comma after each but the last. -/
def paramLines : List Member → List String
  | [] => []
  | [m] => ["   " ++ m.decl]
  | m :: rest => ("   " ++ m.decl ++ ",") :: paramLines rest

def Program.lines (p : Program) : List String :=
  (if p.extensions.isEmpty then [] else p.extensions.map Extension.pragma ++ [""])
    ++ "typedef struct This_s\x7b" :: (p.members.map fun m => "   " ++ m.decl ++ ";")
    ++ ["\x7dThis;", "int get_pass_id(This *this)\x7b", "   return this->passid;", "\x7d", ""]
    ++ (p.helpers.map fun h => h.signature p.stem ++ ";")
    ++ (if p.helpers.isEmpty then [] else [""])
    ++ p.helpers.flatMap (Helper.lines p.stem)
    ++ ("__kernel void " ++ p.entry ++ "(") :: paramLines p.members
    ++ [")\x7b", "   This thisStruct;", "   This* this=&thisStruct;"]
    ++ (p.members.map fun m => "   this->" ++ m.name ++ " = " ++ m.name ++ ";")
    ++ "   \x7b" :: p.body.lines p.stem 2
    ++ ["      return;", "   \x7d", "\x7d"]

/-- The program's text; each line ends with a newline. -/
def Program.text (p : Program) : String := String.join (p.lines.map (· ++ "\n"))

end GridKernel.Target
