import GridKernel.Json.Printer
import GridKernel.Kernel.Descriptor

/-!
# Kernel documents: writing

Fields are written in declaration order. What is optional and absent is left out, except the
value of a `return`.
-/

namespace GridKernel.Document

/-- A variant with a payload. -/
def tagged (tag : String) (payload : Json) : Json := .obj [(tag, payload)]

/-- A member that is left out when there is nothing to write. -/
def optional (key : String) (value : Option Json) : List (String × Json) :=
  value.toList.map fun j => (key, j)

def ofValue : Value → Json
  | .boolean v => tagged "boolean" (.bool v)
  | .byte v => tagged "byte" (.int v.toInt)
  | .short v => tagged "short" (.int v.toInt)
  | .char v => tagged "char" (.int v.toNat)
  | .int v => tagged "int" (.int v.toInt)
  | .long v => tagged "long" (.int v.toInt)
  | .float v => tagged "float" (.ofSingle v)
  | .double v => tagged "double" (.ofDouble v)

def ofType (t : ScalarType) : Json := .str t.name

mutual

def ofExpr : Expr → Json
  | .literal value => tagged "literal" (ofValue value)
  | .var name => tagged "local" (.str name)
  | .field name => tagged "field" (.str name)
  | .element array index =>
    tagged "index" (.obj [("array", .str array), ("index", ofExpr index)])
  | .length array => tagged "length" (.str array)
  | .binary op lhs rhs =>
    tagged "binary" (.obj [("op", .str op.name), ("lhs", ofExpr lhs), ("rhs", ofExpr rhs)])
  | .unary op operand =>
    tagged "unary" (.obj [("op", .str op.name), ("operand", ofExpr operand)])
  | .conditional cond thenValue elseValue =>
    tagged "conditional" (.obj [("cond", ofExpr cond), ("then_value", ofExpr thenValue),
      ("else_value", ofExpr elseValue)])
  | .cast type value implicit =>
    tagged "cast" (.obj [("to", ofType type), ("value", ofExpr value), ("implicit", .bool implicit)])
  | .assign target op value =>
    tagged "assign" (.obj (("target", ofPlace target)
      :: optional "op" (op.map fun o => .str o.name) ++ [("value", ofExpr value)]))
  | .step target op before =>
    tagged "step" (.obj [("target", ofPlace target), ("step", .str op.name),
      ("prefix", .bool before)])
  | .call method args =>
    tagged "call" (.obj [("method", .str method), ("args", .arr (ofExprs args))])
  | .atomic op slot args =>
    tagged "atomic" (.obj [("op", .str op.name), ("slot", ofSlot slot),
      ("args", .arr (ofExprs args))])
  | .builtin func args =>
    tagged "builtin" (.obj [("func", .str func.name), ("args", .arr (ofExprs args))])

def ofPlace : Place Expr → Json
  | .var name => tagged "local" (.str name)
  | .field name => tagged "field" (.str name)
  | .element array index =>
    tagged "index" (.obj [("array", .str array), ("index", ofExpr index)])

def ofSlot : SlotRef Expr → Json
  | ⟨field, index⟩ => .obj (("field", .str field) :: optional "index" (ofOption index))

def ofOption : Option Expr → Option Json
  | some e => some (ofExpr e)
  | none => none

def ofExprs : List Expr → List Json
  | [] => []
  | e :: rest => ofExpr e :: ofExprs rest

end

mutual

def ofStmt : Stmt → Json
  | .declare name type init =>
    tagged "let" (.obj (("name", .str name) :: ("ty", ofType type)
      :: optional "init" (ofOption init)))
  | .expr e => tagged "expr" (ofExpr e)
  | .branch cond thenBody elseBody =>
    tagged "if" (.obj [("cond", ofExpr cond), ("then_body", .arr (ofStmts thenBody)),
      ("else_body", .arr (ofStmts elseBody))])
  | .whileLoop cond body =>
    tagged "while" (.obj [("cond", ofExpr cond), ("body", .arr (ofStmts body))])
  | .doWhile body cond =>
    tagged "do_while" (.obj [("body", .arr (ofStmts body)), ("cond", ofExpr cond)])
  | .forLoop init cond update body =>
    tagged "for" (.obj (("init", .arr (ofStmts init)) :: optional "cond" (ofOption cond)
      ++ [("update", .arr (ofExprs update)), ("body", .arr (ofStmts body))]))
  | .breakLoop => .str "break"
  | .continueLoop => .str "continue"
  | .ret value => tagged "return" ((ofOption value).getD .null)
  | .block body => tagged "block" (.arr (ofStmts body))

def ofStmts : List Stmt → List Json
  | [] => []
  | s :: rest => ofStmt s :: ofStmts rest

end

def ofBody (body : List Stmt) : Json := .arr (ofStmts body)

def ofParam (p : Param) : Json := .obj [("name", .str p.name), ("ty", ofType p.type)]

def ofMethod (m : Method) : Json :=
  .obj (("name", .str m.name) :: ("params", .arr (m.params.map ofParam))
    :: optional "ret" (m.ret.map ofType) ++ [("body", ofBody m.body)])

def ofFieldType : FieldType → Json
  | .scalar type => tagged "scalar" (ofType type)
  | .atomic width => tagged "atomic" (.str width.name)
  | .object name => tagged "object" (.str name)

def ofFieldDecl (d : FieldDecl) : Json :=
  .obj [("name", .str d.name), ("ty", ofFieldType d.type), ("shape", .str d.shape.name),
    ("space", .str d.space.name)]

def ofSchema (s : Schema) : Json :=
  .obj [("name", .str s.name), ("fields", .arr (s.fields.map ofFieldDecl)),
    ("methods", .arr (s.methods.map ofMethod)), ("entry", .str s.entry)]

def ofElementType : ElementType → Json
  | .scalar type => tagged "scalar" (ofType type)
  | .atomic width => tagged "atomic" (.str width.name)

def ofField (f : Field) : Json :=
  .obj [("name", .str f.name), ("element", ofElementType f.element), ("shape", .str f.shape.name),
    ("space", .str f.space.name), ("direction", .str f.direction.name)]

def ofDescriptor (d : Descriptor) : Json :=
  .obj [("name", .str d.name), ("fields", .arr (d.fields.map ofField)),
    ("methods", .arr (d.methods.map ofMethod)), ("entry", .str d.entry)]

end GridKernel.Document
