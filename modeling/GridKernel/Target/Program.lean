import GridKernel.Target.Body
import GridKernel.Target.Printer
import GridKernel.Text.Digest
import GridKernel.Typing.Method

/-!
# Compilation

`compile` checks a descriptor and translates it. The parameters of the kernel function, the
members of its state and the arguments of a launch all follow the order of `kernelParams`.
-/

namespace GridKernel

/-- A parameter of the kernel function. -/
inductive KernelParam where
  /-- The field of this index. -/
  | field (index : Nat)
  /-- The length of the array field of this index. -/
  | length (index : Nat)
  | passId
  deriving DecidableEq, Repr

def Expr.lengthOf? : Expr → Option String
  | .length array => some array
  | _ => none

namespace Descriptor

/-- The fields whose length a method reads. -/
def lengthUses (d : Descriptor) : List String :=
  d.methods.flatMap fun m => (Stmt.allNodes m.body).filterMap Expr.lengthOf?

/-- Whether the kernel function takes the length of a field. -/
def passesLength (d : Descriptor) (f : Field) : Bool :=
  f.isArray && d.lengthUses.contains f.name

/-- The fields in declaration order, each array followed by its length if a method reads it, and
last the number of the pass. -/
def kernelParams (d : Descriptor) : List KernelParam :=
  (d.fields.zipIdx.flatMap fun (f, i) =>
    .field i :: if d.passesLength f then [.length i] else []) ++ [.passId]

end Descriptor

namespace Target

def fieldMember (f : Field) : Member :=
  match f.element, f.shape with
  | .scalar t, .scalar => .scalar t f.name
  | .scalar t, .array => .array f.space t f.name
  | .atomic w, _ => .slots f.scope w f.name

/-- The members of the kernel's state, in the order of the parameters. -/
def members (d : Descriptor) : List Member :=
  (d.fields.flatMap fun f =>
    fieldMember f :: if d.passesLength f then [.length f.name] else []) ++ [.passId]

/-- Whether an expression alone brings in double precision. -/
def makesDouble : GridKernel.Expr → Bool
  | .literal v => v.type = .double
  | .cast type _ _ => type = .double
  | _ => false

def declaresDouble : GridKernel.Stmt → Bool
  | .declare _ type _ => type = .double
  | _ => false

def methodUsesDouble (m : Method) : Bool :=
  m.ret = some .double || (m.params.any fun p => p.type = .double)
    || (GridKernel.Stmt.flattenAll m.body).any fun s =>
      declaresDouble s || (s.ownExprs.flatMap GridKernel.Expr.nodes).any makesDouble

def usesDouble (d : Descriptor) : Bool :=
  (d.fields.any fun f => f.scalarType? = some .double) || d.methods.any methodUsesDouble

def usesLongSlots (d : Descriptor) : Bool := d.fields.any fun f => f.slotWidth? = some .long

/-- Whether elements narrower than a word are stored. -/
def storesSubwords (d : Descriptor) : Bool :=
  d.fields.any fun f => f.isArray && f.isWritten && f.scalarType?.elim false ScalarType.isSubword

def extensions (d : Descriptor) : List Extension :=
  (if usesDouble d then [.double] else [])
    ++ (if usesLongSlots d then [.longAtomicsBase, .longAtomicsExtended] else [])
    ++ (if storesSubwords d then [.byteStores] else [])

/-- The kernel's name with everything that cannot stand in an identifier replaced. -/
def stemOf (name : String) : String :=
  String.ofList (name.toList.map fun c => if c.isAlphanum then c else '_')

def helper (d : Descriptor) (m : Method) : Except TypeFault Helper := do
  return ⟨m.name, m.ret, m.params, ← methodBody d m⟩

def program (d : Descriptor) : Except TypeFault Program := do
  let helpers ← d.helpers.mapM (helper d)
  let body ← methodBody d d.main
  return ⟨stemOf d.name, extensions d, members d, helpers, d.entry, body⟩

end Target

/-- A compiled kernel: the name of the kernel function, and the program's text. -/
structure Source where
  entry : String
  text : String
  deriving DecidableEq, Repr

def Source.digest (s : Source) : String := Digest.ofText s.text

inductive CompileFault where
  | typing (fault : Typing.MethodFault)
  | target (fault : TypeFault)
  deriving DecidableEq, Repr

def CompileFault.diagnose (kernel : String) : CompileFault → Diagnostic
  | .typing fault => fault.diagnose kernel
  | .target fault => ⟨fault.kind, kernel, fault.message, none, none, [], none⟩

namespace Descriptor

/-- Checks the descriptor and translates it. -/
def compile (d : Descriptor) : Except CompileFault Source := do
  (Typing.check d).mapError .typing
  let p ← (Target.program d).mapError .target
  return ⟨d.entry, p.text⟩

end Descriptor

end GridKernel
