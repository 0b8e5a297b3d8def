import GridKernel.Lang.Syntax

/-!
# Scopes

The types of the locals in sight: frames from the innermost outwards.
-/

namespace GridKernel

/-- The names declared in one block, the latest first. -/
abbrev ScopeFrame := List (String × ScalarType)

structure Scope where
  frames : List ScopeFrame
  deriving DecidableEq, Repr

namespace Scope

/-- The type of the innermost local of a name. -/
def lookup? (s : Scope) (name : String) : Option ScalarType :=
  s.frames.findSome? fun frame => frame.lookup name

/-- Opens a block. -/
def push (s : Scope) : Scope := ⟨[] :: s.frames⟩

/-- Whether the innermost block declares a name. -/
def declares (s : Scope) (name : String) : Bool :=
  match s.frames with
  | [] => true
  | frame :: _ => (frame.lookup name).isSome

/-- Declares a name in the innermost block. -/
def declare (s : Scope) (name : String) (type : ScalarType) : Scope :=
  match s.frames with
  | [] => s
  | frame :: rest => ⟨((name, type) :: frame) :: rest⟩

/-- The parameters of a method, in the block of its body. -/
def ofMethod (m : Method) : Scope :=
  m.params.foldl (fun s p => s.declare p.name p.type) ⟨[[]]⟩

end Scope

end GridKernel
