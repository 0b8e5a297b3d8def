import GridKernel.Proofs.Lang.Traversals
import GridKernel.Proofs.Typing.Tasks

/-!
# Statements and what is checked about them

Each task of the checker belongs to one statement, at the ordinal that the task carries, and each
expression that a statement holds itself gets its type in one of the tasks. What a task sees is what
the method has for parameters and what its statements declare.
-/

namespace GridKernel.Typing

open List

/-- The duty is about the statement, or about an expression that it holds itself. The rule for
initializers is about a statement among those of a loop, which is itself one of `all`. -/
inductive Owes (all : List Stmt) : Stmt → Duty → Prop
  | declare (name : String) (type : ScalarType) (init : Option Expr) :
      Owes all (.declare name type init) (.declare name type init)
  | effect {stmt : Stmt} {e : Expr} (own : e ∈ stmt.ownExprs) : Owes all stmt (.effect e)
  | condition {stmt : Stmt} {e : Expr} (own : e ∈ stmt.ownExprs) : Owes all stmt (.condition e)
  | ret (value : Option Expr) : Owes all (.ret value) (.ret value)
  | breakLoop (inLoop : Bool) : Owes all .breakLoop (.rule inLoop .strayBreak)
  | continueLoop (inLoop : Bool) : Owes all .continueLoop (.rule inLoop .strayContinue)
  | initializer {init body : List Stmt} {cond : Option Expr} {update : List Expr} {stmt : Stmt}
      (loop : Stmt.forLoop init cond update body ∈ all) (inside : stmt ∈ init) :
      Owes all stmt (.rule (isInitializer stmt) .badInitializer)

/-- Every name in sight is one of `base`, or one of the statements declares it. -/
def InSight (base : ScopeFrame) (all : List Stmt) (s : Scope) : Prop :=
  ∀ entry ∈ s.frames.flatten, entry ∈ base ∨ ∃ init, Stmt.declare entry.1 entry.2 init ∈ all

namespace InSight

variable {base : ScopeFrame} {all : List Stmt}

theorem push (sees : InSight base all s) : InSight base all s.push := sees

theorem after (sees : InSight base all s) (inside : stmt ∈ all) :
    InSight base all (stmt.scopeAfter s) := by
  cases stmt with
  | declare name type init =>
    obtain ⟨frames⟩ := s
    cases frames with
    | nil => exact sees
    | cons frame rest => exact forall_mem_cons.mpr ⟨.inr ⟨init, inside⟩, sees⟩
  | _ => exact sees

theorem afterAll (sees : InSight base all s) (inside : Stmt.flattenAll stmts ⊆ all) :
    InSight base all (Stmt.scopeAfterAll s stmts) := by
  induction stmts generalizing s with
  | nil => exact sees
  | cons stmt rest ih =>
    rw [Stmt.flattenAll, append_subset] at inside
    exact ih (sees.after (inside.1 (Stmt.flatten_listed.self stmt))) inside.2

end InSight

/-- The tasks are about the statements, whose ordinals count from `start`: each belongs to one of
them and sees what is in sight there, and each expression that one of them holds itself gets its type
in one of the tasks. -/
structure Covers (base : ScopeFrame) (all : List Stmt) (start : Nat) (stmts : List Stmt)
    (tasks : List Task) : Prop where
  owned : ∀ t ∈ tasks, InSight base all t.scope ∧
    ∃ i stmt, t.position = start + i ∧ stmts[i]? = some stmt ∧ Owes all stmt t.duty
  served : ∀ stmt ∈ stmts, ∀ e ∈ stmt.ownExprs, ∃ t ∈ tasks, e ∈ t.duty.exprs

namespace Covers

variable {all after : List Stmt}

theorem nil : Covers base all start [] [] := ⟨by simp, by simp⟩

/-- One statement with the tasks of its own. -/
theorem own (owes : ∀ t ∈ tasks, InSight base all t.scope ∧ t.position = start ∧
      Owes all stmt t.duty)
    (served : ∀ e ∈ stmt.ownExprs, ∃ t ∈ tasks, e ∈ t.duty.exprs) :
    Covers base all start [stmt] tasks where
  owned t member := (owes t member).imp_right fun own => ⟨0, stmt, own.1, rfl, own.2⟩
  served := forall_mem_singleton.mpr served

theorem one (sees : InSight base all scope) (owes : Owes all stmt duty)
    (served : stmt.ownExprs ⊆ duty.exprs) :
    Covers base all start [stmt] [⟨start, scope, duty⟩] :=
  own (forall_mem_singleton.mpr ⟨sees, rfl, owes⟩) fun _ member =>
    ⟨_, mem_singleton_self _, served member⟩

theorem append (first : Covers base all start before tasks)
    (second : Covers base all (start + before.length) after tasks') :
    Covers base all start (before ++ after) (tasks ++ tasks') := by
  constructor
  · intro t member
    rcases mem_append.mp member with member | member
    · obtain ⟨sees, i, stmt, position, found, owes⟩ := first.owned t member
      have bound : i < before.length := (List.getElem?_eq_some_iff.mp found).1
      exact ⟨sees, i, stmt, position, by rwa [getElem?_append_left bound], owes⟩
    · obtain ⟨sees, i, stmt, position, found, owes⟩ := second.owned t member
      refine ⟨sees, before.length + i, stmt, by omega, ?_, owes⟩
      rwa [getElem?_append_right (by omega), Nat.add_sub_cancel_left]
  · intro stmt member e inside
    rcases mem_append.mp member with member | member
    · obtain ⟨t, listed, about⟩ := first.served stmt member e inside
      exact ⟨t, mem_append_left _ listed, about⟩
    · obtain ⟨t, listed, about⟩ := second.served stmt member e inside
      exact ⟨t, mem_append_right _ listed, about⟩

theorem perm (h : Covers base all start stmts tasks) (same : tasks.Perm tasks') :
    Covers base all start stmts tasks' where
  owned t member := h.owned t (same.mem_iff.mpr member)
  served stmt member e inside := by
    obtain ⟨t, listed, about⟩ := h.served stmt member e inside
    exact ⟨t, same.mem_iff.mp listed, about⟩

/-- One more task about the statement that comes first. -/
theorem ruled (h : Covers base all start stmts tasks) (sees : InSight base all scope)
    (first : stmts[0]? = some stmt) (owes : Owes all stmt duty) :
    Covers base all start stmts (⟨start, scope, duty⟩ :: tasks) where
  owned := forall_mem_cons.mpr ⟨⟨sees, 0, stmt, rfl, first, owes⟩, h.owned⟩
  served stmt member e inside := by
    obtain ⟨t, listed, about⟩ := h.served stmt member e inside
    exact ⟨t, mem_cons_of_mem _ listed, about⟩

end Covers

variable {all : List Stmt}

/-- The head of a `for` has a task for each of its expressions. -/
theorem head_covered {cond : Option Expr} (p) (sees : InSight base all s) :
    Covers base all p [.forLoop init cond update body]
      (cond.toList.map (⟨p, s, .condition ·⟩) ++ update.map (⟨p, s, .effect ·⟩)) := by
  refine .own ?_ fun e own => ?_
  · refine forall_mem_append.mpr ⟨forall_mem_map.mpr ?_, forall_mem_map.mpr ?_⟩
    · exact fun e member => ⟨sees, rfl, .condition (mem_append_left _ member)⟩
    · exact fun e member => ⟨sees, rfl, .effect (mem_append_right _ member)⟩
  · rcases mem_append.mp own with member | member
    · exact ⟨_, mem_append_left _ (mem_map_of_mem member), mem_singleton_self e⟩
    · exact ⟨_, mem_append_right _ (mem_map_of_mem member), mem_singleton_self e⟩

mutual

/-- By induction on statements: the tasks of the parts are about the statements of the parts. -/
theorem stmtTasks_cover (inLoop : Bool) (p : Nat) {s : Scope} (sees : InSight base all s) :
    ∀ stmt : Stmt, stmt.flatten ⊆ all → Covers base all p stmt.flatten (stmtTasks inLoop p s stmt)
  | .declare name type init, _ => .one sees (.declare name type init) (List.Subset.refl _)
  | .expr e, _ => .one sees (.effect (mem_singleton_self e)) (List.Subset.refl _)
  | .branch cond thenBody elseBody, inside => by
    rw [Stmt.flatten, cons_subset, append_subset] at inside
    obtain ⟨-, first, second⟩ := inside
    exact .append (.one sees (.condition (mem_singleton_self cond)) (List.Subset.refl _))
      ((bodyTasks_cover inLoop (p + 1) sees.push thenBody first).append
        (bodyTasks_cover inLoop _ sees.push elseBody second))
  | .whileLoop cond body, inside => by
    rw [Stmt.flatten, cons_subset] at inside
    exact .append (.one sees (.condition (mem_singleton_self cond)) (List.Subset.refl _))
      (bodyTasks_cover true (p + 1) sees.push body inside.2)
  | .doWhile body cond, inside => by
    rw [Stmt.flatten, cons_subset] at inside
    have test : Covers base all p [.doWhile body cond] [⟨p, s, .condition cond⟩] :=
      .one sees (.condition (mem_singleton_self cond)) (List.Subset.refl _)
    exact (test.append (bodyTasks_cover true (p + 1) sees.push body inside.2)).perm
      perm_append_comm
  | .forLoop init cond update body, inside => by
    rw [Stmt.flatten, cons_subset, append_subset] at inside
    obtain ⟨loop, first, inner⟩ := inside
    have within := sees.push.afterAll first
    have head : Covers base all p [.forLoop init cond update body] _ := head_covered p within
    have start := initTasks_cover inLoop (p + 1) sees.push loop init (List.Subset.refl _) first
    have parts := start.append (bodyTasks_cover true _ within.push body inner)
    -- The tasks of the head stand between those of the initializers and those of the body.
    refine (head.append parts).perm ((perm_append_comm_assoc _ _ _).trans ?_)
    rw [append_assoc]
    exact .refl _
  | .breakLoop, _ => .one sees (.breakLoop inLoop) (List.Subset.refl _)
  | .continueLoop, _ => .one sees (.continueLoop inLoop) (List.Subset.refl _)
  | .ret value, _ => .one sees (.ret value) (List.Subset.refl _)
  | .block body, inside => by
    rw [Stmt.flatten, cons_subset] at inside
    have itself : Covers base all p [.block body] [] := .own (by simp) (by simp [Stmt.ownExprs])
    exact itself.append (bodyTasks_cover inLoop (p + 1) sees.push body inside.2)

theorem bodyTasks_cover (inLoop : Bool) (p : Nat) {s : Scope} (sees : InSight base all s) :
    ∀ stmts : List Stmt, Stmt.flattenAll stmts ⊆ all →
      Covers base all p (Stmt.flattenAll stmts) (bodyTasks inLoop p s stmts)
  | [], _ => .nil
  | stmt :: rest, inside => by
    rw [Stmt.flattenAll, append_subset] at inside
    have next := sees.after (inside.1 (Stmt.flatten_listed.self stmt))
    exact (stmtTasks_cover inLoop p sees stmt inside.1).append
      (bodyTasks_cover inLoop _ next rest inside.2)

theorem initTasks_cover {init body : List Stmt} {cond : Option Expr} {update : List Expr}
    (inLoop : Bool) (p : Nat) {s : Scope} (sees : InSight base all s)
    (loop : Stmt.forLoop init cond update body ∈ all) :
    ∀ stmts : List Stmt, stmts ⊆ init → Stmt.flattenAll stmts ⊆ all →
      Covers base all p (Stmt.flattenAll stmts) (initTasks inLoop p s stmts)
  | [], _, _ => .nil
  | stmt :: rest, among, inside => by
    rw [Stmt.flattenAll, append_subset] at inside
    rw [cons_subset] at among
    have next := sees.after (inside.1 (Stmt.flatten_listed.self stmt))
    have both := (stmtTasks_cover inLoop p sees stmt inside.1).append
      (initTasks_cover inLoop _ next loop rest among.2 inside.2)
    have first : (stmt.flatten ++ Stmt.flattenAll rest)[0]? = some stmt := by
      rw [Stmt.flatten_listed stmt]
      rfl
    exact both.ruled sees first (.initializer loop among.1)

end

theorem methodTasks_cover (m) :
    Covers (Scope.ofMethod m).frames.flatten (Stmt.flattenAll m.body) 0 (Stmt.flattenAll m.body)
      (methodTasks m) :=
  bodyTasks_cover false 0 (fun _ => .inl) m.body (List.Subset.refl _)

theorem methodTasks_owned (m) (member : t ∈ methodTasks m) :
    ∃ stmt, (stmt, t.position) ∈ Stmt.numbered m.body ∧
      Owes (Stmt.flattenAll m.body) stmt t.duty := by
  obtain ⟨-, i, stmt, position, found, owes⟩ := (methodTasks_cover m).owned t member
  rw [Nat.zero_add] at position
  exact ⟨stmt, mem_zipIdx_iff_getElem?.mpr (position ▸ found), owes⟩

/-- A duty is about expressions of the statement that owes it. -/
theorem Owes.own {all : List Stmt} (owes : Owes all stmt duty) (about : e ∈ duty.exprs) :
    e ∈ stmt.ownExprs := by
  cases owes with
  | declare | ret => exact about
  | effect own | condition own => exact mem_singleton.mp about ▸ own
  | breakLoop | continueLoop | initializer => cases about

theorem methodTasks_serve (m) (inside : n ∈ Stmt.allNodes m.body) :
    ∃ t ∈ methodTasks m, ∃ e ∈ t.duty.exprs, n ∈ e.nodes := by
  obtain ⟨stmt, listed, own⟩ := Stmt.mem_allNodes.mp inside
  obtain ⟨e, held, within⟩ := mem_flatMap.mp own
  obtain ⟨t, served, about⟩ := (methodTasks_cover m).served stmt listed e held
  exact ⟨t, served, e, about, within⟩

end GridKernel.Typing
