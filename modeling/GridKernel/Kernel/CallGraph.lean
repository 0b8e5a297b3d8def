import GridKernel.Diagnostic.Basic
import GridKernel.Lang.Traverse
import GridKernel.Text.Blank

/-!
# Call graphs

`linearize` lists the methods that the entry point reaches, each once, in the order in which a
depth-first walk through the call sites first reaches them. Kernels have no call stack, so a cycle
among these methods is a fault.
-/

namespace GridKernel

/-- A call: the method called, and the ordinal of the statement that calls it. -/
structure CallSite where
  callee : String
  position : Nat
  deriving DecidableEq, Repr

def Expr.callee? : Expr → Option String
  | .call method _ => some method
  | _ => none

/-- The calls a method makes, in order. -/
def Method.callSites (m : Method) : List CallSite :=
  (Stmt.numbered m.body).flatMap fun (s, position) =>
    (s.ownExprs.flatMap Expr.nodes).filterMap fun e =>
      e.callee?.map fun callee => ⟨callee, position⟩

inductive CallFault where
  | undeclaredEntry (entry : String)
  | undeclaredCallee (method : String) (site : CallSite)
  /-- The members of a cycle in the order in which they are reached, and the first statement of
  the first of them that calls a member. -/
  | recursion (members : List String) (position : Option Nat)
  deriving DecidableEq, Repr

namespace CallGraph

/-- The method of a name; a later declaration hides an earlier one. -/
def find? (methods : List Method) (name : String) : Option Method :=
  methods.reverse.find? (·.name == name)

/-- The names called by the method of a name. -/
def callees (methods : List Method) (name : String) : List String :=
  ((find? methods name).map fun m => m.callSites.map CallSite.callee).getD []

/-- The first call of an undeclared method. -/
def unresolved? (methods : List Method) : Option CallFault :=
  methods.findSome? fun m =>
    (m.callSites.find? fun s => (find? methods s.callee).isNone).map (.undeclaredCallee m.name ·)

/-- The names that are reached from a stack of names, after those already reached. A step takes a
name from the stack and, if it is new, puts its successors in its place. -/
def reach (next : String → List String) : Nat → List String → List String → List String
  | 0, _, reached => reached
  | _, [], reached => reached
  | n + 1, name :: stack, reached =>
    if reached.contains name then reach next n stack reached
    else reach next n (next name ++ stack) (reached ++ [name])

/-- More steps than any walk takes: each call site of each method puts one name on the stack. -/
def steps (methods : List Method) : Nat :=
  1 + methods.foldr (fun m n => m.callSites.length + 1 + n) 0

/-- The names reached from a method in at least one call. -/
def reachedFrom (methods : List Method) (name : String) : List String :=
  reach (callees methods) (steps methods + (callees methods name).length)
    (callees methods name) []

/-- A stage of a walk: a method is entered, and left once everything below it is done. -/
inductive Visit where
  | enter (name : String)
  | leave (name : String)
  deriving DecidableEq, Repr

/-- The names in the order in which a depth-first walk leaves them. -/
def leaving (next : String → List String) :
    Nat → List Visit → List String → List String → List String
  | 0, _, _, left => left
  | _, [], _, left => left
  | n + 1, .leave name :: stack, entered, left => leaving next n stack entered (left ++ [name])
  | n + 1, .enter name :: stack, entered, left =>
    if entered.contains name then leaving next n stack entered left
    else
      leaving next n ((next name).map .enter ++ .leave name :: stack) (entered ++ [name]) left

/-- The methods on a common cycle with a method, in a given order. -/
def component (methods : List Method) (order : List String) (name : String) : List String :=
  order.filter fun m =>
    m == name
      || ((reachedFrom methods name).contains m && (reachedFrom methods m).contains name)

def isCyclic (methods : List Method) (name : String) : Bool :=
  (reachedFrom methods name).contains name

/-- The members of the first cycle that a walk which follows call sites from the last to the first
has completely left. -/
def cycle? (methods : List Method) (entry : String) (order : List String) :
    Option (List String) :=
  let next name := (callees methods name).eraseDups.reverse
  let left := leaving next (2 * steps methods + 2) [.enter entry] [] []
  (List.range left.length).findSome? fun i =>
    left[i]?.bind fun name =>
      let members := component methods order name
      if isCyclic methods name && members.all (left.take (i + 1)).contains then some members
      else none

/-- The methods the entry point reaches, the entry point first. -/
def linearize (methods : List Method) (entry : String) : Except CallFault (List Method) :=
  if (find? methods entry).isNone then .error (.undeclaredEntry entry)
  else match unresolved? methods with
    | some fault => .error fault
    | none =>
      let order := reach (callees methods) (steps methods) [entry] []
      match cycle? methods entry order with
      | some members =>
        let position := do
          let first ← members.head?
          let m ← find? methods first
          (m.callSites.find? fun s => members.contains s.callee).map CallSite.position
        .error (.recursion members position)
      | none => .ok (order.filterMap (find? methods))

end CallGraph

def CallFault.diagnose (kernel : String) : CallFault → Diagnostic
  | .undeclaredEntry entry =>
    ⟨.invalidDescriptor, kernel, s!"entry point '{entry}' is not declared", none, none, [], none⟩
  | .undeclaredCallee method site =>
    ⟨.unknownSymbol, kernel, s!"call to undeclared method '{site.callee}'", some method,
      some site.position, [], none⟩
  | .recursion members position =>
    let message :=
      match members with
      | [name] => s!"method '{name}' calls itself"
      | _ => "methods " ++ Text.join " -> " members ++ " call each other recursively"
    ⟨.recursion, kernel, message, members.head?, position, [],
      some "kernels have no call stack; rewrite the recursion as a loop"⟩

end GridKernel
