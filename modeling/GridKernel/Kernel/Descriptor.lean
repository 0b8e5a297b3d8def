import GridKernel.Kernel.CallGraph
import GridKernel.Kernel.Schema
import GridKernel.Lang.Name

/-!
# Kernel descriptors

A descriptor is a schema whose fields can live on the device and whose reachable methods form no
cycle. Each field carries the direction in which the methods use it.
-/

namespace GridKernel

/-- The content of a field: plain scalars or atomic slots. -/
inductive ElementType where
  | scalar (type : ScalarType)
  | atomic (width : SlotWidth)
  deriving DecidableEq, Repr

inductive Direction where
  | readOnly
  | readWrite
  deriving DecidableEq, Repr

def Direction.name : Direction → String
  | readOnly => "read_only"
  | readWrite => "read_write"

structure Field where
  name : String
  element : ElementType
  shape : FieldShape
  space : MemorySpace
  direction : Direction
  deriving DecidableEq, Repr

namespace Field

def isArray (f : Field) : Bool := f.shape = .array

def isAtomic (f : Field) : Bool :=
  match f.element with
  | .atomic _ => true
  | .scalar _ => false

def scalarType? (f : Field) : Option ScalarType :=
  match f.element with
  | .scalar t => some t
  | .atomic _ => none

def slotWidth? (f : Field) : Option SlotWidth :=
  match f.element with
  | .atomic w => some w
  | .scalar _ => none

/-- Where the field's slots live. -/
def scope (f : Field) : SlotScope := if f.space = .workGroup then .workGroup else .global

def isWritten (f : Field) : Bool := f.direction = .readWrite

end Field

structure Descriptor where
  name : String
  /-- In declaration order. -/
  fields : List Field
  /-- The entry point. -/
  main : Method
  /-- The other reachable methods, in the order in which they are reached. -/
  helpers : List Method

namespace Descriptor

def methods (d : Descriptor) : List Method := d.main :: d.helpers

def entry (d : Descriptor) : String := d.main.name

def field? (d : Descriptor) (name : String) : Option Field := d.fields.find? (·.name == name)

def fieldIndex? (d : Descriptor) (name : String) : Option Nat :=
  d.fields.findIdx? (·.name == name)

def method? (d : Descriptor) (name : String) : Option Method :=
  d.methods.find? (·.name == name)

end Descriptor

inductive SchemaFault where
  | duplicateField (name : String)
  | badFieldName (name : String)
  | duplicateMethod (name : String)
  | undeclaredEntry (name : String)
  | badEntry (name : String)
  | calls (fault : CallFault)
  | objectField (name type : String)
  | constantAtomic (name : String)
  | misplacedScalar (name : String)
  | writtenConstant (name : String)
  deriving DecidableEq, Repr

def SchemaFault.diagnose (kernel : String) : SchemaFault → Diagnostic
  | .calls fault => fault.diagnose kernel
  | .objectField name type =>
    ⟨.unsupportedFieldType, kernel, s!"field '{name}' has unsupported type '{type}'", none, none,
      [], some "fields must be primitives, primitive arrays or atomic integers"⟩
  | .badEntry name =>
    invalid (some name) s!"entry point '{name}' must take no parameters and return void"
  | .duplicateField name => invalid none s!"field '{name}' declared twice"
  | .badFieldName name => invalid none s!"'{name}' is not a valid field name"
  | .duplicateMethod name => invalid none s!"method '{name}' declared twice"
  | .undeclaredEntry name => invalid none s!"entry point '{name}' is not declared"
  | .constantAtomic name =>
    invalid none s!"atomic field '{name}' cannot live in constant memory"
  | .misplacedScalar name => invalid none s!"scalar field '{name}' must live in global memory"
  | .writtenConstant name => invalid none s!"constant field '{name}' is written"
where
  invalid (method : Option String) (message : String) : Diagnostic :=
    ⟨.invalidDescriptor, kernel, message, method, none, [], none⟩

/-- The field an expression stores into, if it does. -/
def Expr.writtenField? : Expr → Option String
  | .assign (.field name) _ _ => some name
  | .assign (.element array _) _ _ => some array
  | .step (.field name) _ _ => some name
  | .step (.element array _) _ _ => some array
  | .atomic op slot _ => if op.writes then some slot.field else none
  | _ => none

/-- The fields that methods store into. -/
def Method.writtenFields (methods : List Method) : List String :=
  methods.flatMap fun m => (Stmt.allNodes m.body).filterMap Expr.writtenField?

namespace Schema

/-- Field names are new and valid, one after the other. -/
def checkFieldNames : List String → List FieldDecl → Except SchemaFault Unit
  | _, [] => .ok ()
  | seen, decl :: rest =>
    if seen.contains decl.name then .error (.duplicateField decl.name)
    else if !Name.isValidField decl.name then .error (.badFieldName decl.name)
    else checkFieldNames (decl.name :: seen) rest

def checkMethodNames : List String → List Method → Except SchemaFault Unit
  | _, [] => .ok ()
  | seen, m :: rest =>
    if seen.contains m.name then .error (.duplicateMethod m.name)
    else checkMethodNames (m.name :: seen) rest

/-- The entry point is declared, takes nothing and returns nothing. -/
def checkEntry (s : Schema) : Except SchemaFault Unit :=
  match s.methods.find? (·.name == s.entry) with
  | none => .error (.undeclaredEntry s.entry)
  | some m => if m.params.isEmpty && m.ret.isNone then .ok () else .error (.badEntry m.name)

def element (decl : FieldDecl) : Except SchemaFault ElementType :=
  match decl.type with
  | .scalar t => .ok (.scalar t)
  | .atomic w => .ok (.atomic w)
  | .object type => .error (.objectField decl.name type)

/-- A field with its direction. Slots cannot be constant, a single scalar is passed by value, and
what is constant is not written. -/
def field (written : List String) (decl : FieldDecl) : Except SchemaFault Field := do
  let element ← element decl
  let atomic := match element with
    | .atomic _ => true
    | .scalar _ => false
  let direction : Direction := if written.contains decl.name then .readWrite else .readOnly
  if decl.space = .constant && atomic then .error (.constantAtomic decl.name)
  else if decl.space ≠ .global && decl.shape = .scalar && !atomic then
    .error (.misplacedScalar decl.name)
  else if decl.space = .constant && direction = .readWrite then
    .error (.writtenConstant decl.name)
  else .ok ⟨decl.name, element, decl.shape, decl.space, direction⟩

def build (s : Schema) : Except SchemaFault Descriptor := do
  checkFieldNames [] s.fields
  checkMethodNames [] s.methods
  s.checkEntry
  match CallGraph.linearize s.methods s.entry with
  | .error fault => .error (.calls fault)
  | .ok [] => .error (.undeclaredEntry s.entry)
  | .ok (main :: helpers) => do
    let fields ← s.fields.mapM (field (Method.writtenFields (main :: helpers)))
    return ⟨s.name, fields, main, helpers⟩

/-- The descriptor, or what to report. -/
def descriptor (s : Schema) : Except Diagnostic Descriptor :=
  s.build.mapError (SchemaFault.diagnose s.name)

end Schema

end GridKernel
