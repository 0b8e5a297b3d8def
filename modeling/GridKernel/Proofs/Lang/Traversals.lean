import GridKernel.Proofs.Lang.Parts
import Mathlib.Data.List.Perm.Basic

/-!
# Both traversals see the same expressions

Numbering visits statements one by one, and each gives the expressions that it holds itself;
`Stmt.allNodes` goes through a body in one piece. The second lists a loop's initializers before its
condition and the first lists them after it, but nothing is left out and nothing comes twice.
-/

namespace GridKernel

/-- The expressions that a statement holds itself, with everything inside them. -/
def Stmt.ownNodes (s : Stmt) : List Expr := s.ownExprs.flatMap Expr.nodes

theorem Stmt.allNodes_eq (body) : Stmt.allNodes body = body.flatMap Stmt.nodes := by
  induction body with
  | nil => rfl
  | cons s rest ih => rw [Stmt.allNodes, ih, List.flatMap_cons]

/-- A statement lists its own expressions and those of its parts. -/
theorem Stmt.nodes_perm (s : Stmt) : (s.ownNodes ++ Stmt.allNodes s.parts).Perm s.nodes := by
  cases s with
  | forLoop init cond update body =>
    -- The head's own expressions stand before the initializers in one list, after them in the other.
    have moved := List.perm_append_comm_assoc ((cond.toList ++ update).flatMap Expr.nodes)
      (Stmt.allNodes init) (Stmt.allNodes body)
    simpa [Stmt.nodes, Stmt.ownNodes, Stmt.ownExprs, Stmt.parts, Stmt.allNodes_eq, Expr.optionNodes_eq,
      Expr.listNodes_eq] using moved
  | _ =>
    simp [Stmt.nodes, Stmt.ownNodes, Stmt.ownExprs, Stmt.parts, Stmt.allNodes_eq, Expr.optionNodes_eq]

theorem Stmt.flatten_perm (s : Stmt) : (s.flatten.flatMap Stmt.ownNodes).Perm s.nodes := by
  refine Stmt.flatten_listed.induct (P := fun s => (s.flatten.flatMap ownNodes).Perm s.nodes)
    (fun s inner => ?_) s
  have parts := List.Perm.flatMap_left s.parts inner
  rw [← Stmt.allNodes_eq] at parts
  rw [Stmt.flatten_listed s, List.flatMap_cons, List.flatMap_assoc]
  exact (parts.append_left _).trans s.nodes_perm

/-- The expressions of the numbered statements are all expressions of the body, each as often as it
occurs. -/
theorem Stmt.flattenAll_perm (body) :
    ((Stmt.flattenAll body).flatMap Stmt.ownNodes).Perm (Stmt.allNodes body) := by
  rw [Stmt.flattenAll_eq, Stmt.allNodes_eq, List.flatMap_assoc]
  exact List.Perm.flatMap_left body fun s _ => s.flatten_perm

theorem Stmt.mem_allNodes :
    e ∈ Stmt.allNodes body ↔ ∃ s ∈ Stmt.flattenAll body, e ∈ s.ownNodes := by
  rw [← (Stmt.flattenAll_perm body).mem_iff, List.mem_flatMap]

/-- The expressions of the numbered statements, statement by statement. -/
def Stmt.numberedNodes (body : List Stmt) : List Expr :=
  (Stmt.numbered body).flatMap fun numbered => numbered.1.ownNodes

theorem Stmt.numberedNodes_eq (body) :
    Stmt.numberedNodes body = (Stmt.flattenAll body).flatMap Stmt.ownNodes := by
  rw [Stmt.numberedNodes, ← List.flatMap_map Prod.fst Stmt.ownNodes, Stmt.numbered,
    List.zipIdx_map_fst]

theorem Stmt.numberedNodes_perm (body) : (Stmt.numberedNodes body).Perm (Stmt.allNodes body) :=
  Stmt.numberedNodes_eq body ▸ Stmt.flattenAll_perm body

/-! ## Locals -/

def Stmt.localName? : Stmt → Option String
  | .declare name _ _ => some name
  | _ => none

/-- The names of the locals that a statement declares, those of nested statements included. -/
def Stmt.locals (s : Stmt) : List String := s.flatten.filterMap Stmt.localName?

/-- The names of the locals that statements declare. -/
def Stmt.allLocals (body : List Stmt) : List String :=
  (Stmt.flattenAll body).filterMap Stmt.localName?

theorem Stmt.allLocals_cons (s rest) :
    Stmt.allLocals (s :: rest) = s.locals ++ Stmt.allLocals rest :=
  List.filterMap_append

theorem Stmt.locals_branch (cond thenBody elseBody) :
    (Stmt.branch cond thenBody elseBody).locals =
      Stmt.allLocals thenBody ++ Stmt.allLocals elseBody :=
  List.filterMap_append

theorem Stmt.locals_forLoop (init cond update body) : (Stmt.forLoop init cond update body).locals =
      Stmt.allLocals init ++ Stmt.allLocals body :=
  List.filterMap_append

end GridKernel
