import GridKernel.Lang.Syntax

/-!
# Kernel schemas

A schema is a kernel as declared: its fields and methods, and the name of its entry point. It is
also what a kernel document holds.
-/

namespace GridKernel

/-- The declared type of a field. An `object` is any other type, and never compiles. -/
inductive FieldType where
  | scalar (type : ScalarType)
  | atomic (width : SlotWidth)
  | object (name : String)
  deriving DecidableEq, Repr

inductive FieldShape where
  | scalar
  | array
  deriving DecidableEq, Repr, Inhabited

def FieldShape.name : FieldShape → String
  | scalar => "scalar"
  | array => "array"

def FieldShape.ofName? (s : String) : Option FieldShape :=
  [FieldShape.scalar, .array].find? (·.name == s)

inductive MemorySpace where
  | global
  /-- Shared by the work-items of one group. -/
  | workGroup
  | constant
  deriving DecidableEq, Repr, Inhabited

def MemorySpace.name : MemorySpace → String
  | global => "global"
  | workGroup => "local"
  | constant => "constant"

def MemorySpace.ofName? (s : String) : Option MemorySpace :=
  [MemorySpace.global, .workGroup, .constant].find? (·.name == s)

def MemorySpace.clQualifier : MemorySpace → String
  | global => "__global"
  | workGroup => "__local"
  | constant => "__constant"

structure FieldDecl where
  name : String
  type : FieldType
  shape : FieldShape := .scalar
  space : MemorySpace := .global
  deriving DecidableEq, Repr

structure Schema where
  name : String
  fields : List FieldDecl := []
  methods : List Method := []
  entry : String := "run"

namespace Schema

def addField (s : Schema) (decl : FieldDecl) : Schema := { s with fields := s.fields ++ [decl] }

def addMethod (s : Schema) (m : Method) : Schema := { s with methods := s.methods ++ [m] }

/-- Moves the field declared last into another memory space. -/
def placeLast (s : Schema) (space : MemorySpace) : Schema :=
  match s.fields.reverse with
  | [] => s
  | last :: rest => { s with fields := ({ last with space } :: rest).reverse }

end Schema

/-! ## Schemas that describe the same kernel

Two schemas are the same when they agree in everything, literals being compared as numbers. -/

mutual

def Expr.same : Expr → Expr → Bool
  | .literal v, .literal w => v.same w
  | .var a, .var b => a == b
  | .field a, .field b => a == b
  | .element a i, .element b j => a == b && i.same j
  | .length a, .length b => a == b
  | .binary p a b, .binary q c d => p == q && a.same c && b.same d
  | .unary p a, .unary q b => p == q && a.same b
  | .conditional a b c, .conditional d e f => a.same d && b.same e && c.same f
  | .cast t a i, .cast u b j => t == u && a.same b && i == j
  | .assign s p a, .assign t q b => s.same t && p == q && a.same b
  | .step s p a, .step t q b => s.same t && p == q && a == b
  | .call m a, .call n b => m == n && Expr.sameAll a b
  | .atomic p s a, .atomic q t b => p == q && s.same t && Expr.sameAll a b
  | .builtin f a, .builtin g b => f == g && Expr.sameAll a b
  | _, _ => false

def Place.same : Place Expr → Place Expr → Bool
  | .var a, .var b => a == b
  | .field a, .field b => a == b
  | .element a i, .element b j => a == b && i.same j
  | _, _ => false

def SlotRef.same : SlotRef Expr → SlotRef Expr → Bool
  | ⟨f, i⟩, ⟨g, j⟩ => f == g && Expr.sameOption i j

def Expr.sameOption : Option Expr → Option Expr → Bool
  | none, none => true
  | some a, some b => a.same b
  | _, _ => false

def Expr.sameAll : List Expr → List Expr → Bool
  | [], [] => true
  | a :: as, b :: bs => a.same b && Expr.sameAll as bs
  | _, _ => false

end

mutual

def Stmt.same : Stmt → Stmt → Bool
  | .declare a t i, .declare b u j => a == b && t == u && Expr.sameOption i j
  | .expr a, .expr b => a.same b
  | .branch a t e, .branch b u f => a.same b && Stmt.sameAll t u && Stmt.sameAll e f
  | .whileLoop a s, .whileLoop b t => a.same b && Stmt.sameAll s t
  | .doWhile s a, .doWhile t b => Stmt.sameAll s t && a.same b
  | .forLoop i a u s, .forLoop j b v t =>
    Stmt.sameAll i j && Expr.sameOption a b && Expr.sameAll u v && Stmt.sameAll s t
  | .breakLoop, .breakLoop => true
  | .continueLoop, .continueLoop => true
  | .ret a, .ret b => Expr.sameOption a b
  | .block s, .block t => Stmt.sameAll s t
  | _, _ => false

def Stmt.sameAll : List Stmt → List Stmt → Bool
  | [], [] => true
  | a :: as, b :: bs => a.same b && Stmt.sameAll as bs
  | _, _ => false

end

def Method.same (m n : Method) : Bool :=
  m.name == n.name && m.params == n.params && m.ret == n.ret && Stmt.sameAll m.body n.body

def Method.sameAll : List Method → List Method → Bool
  | [], [] => true
  | m :: ms, n :: ns => m.same n && Method.sameAll ms ns
  | _, _ => false

def Schema.same (s t : Schema) : Bool :=
  s.name == t.name && s.fields == t.fields && Method.sameAll s.methods t.methods
    && s.entry == t.entry

end GridKernel
