import GridKernel.Proofs.Lang.Parts
import GridKernel.Proofs.Typing.Inversion

/-!
# What the checker checks

Checking a statement is going through a list of tasks, each for one statement and in the scope that
is in force there, up to the first one that fails. The list follows from the statement and the scope
alone.
-/

namespace GridKernel

open List

/-- The scope after a statement: only a declaration changes it. -/
def Stmt.scopeAfter (s : Scope) : Stmt → Scope
  | .declare name type _ => s.declare name type
  | _ => s

def Stmt.scopeAfterAll (s : Scope) (stmts : List Stmt) : Scope := stmts.foldl Stmt.scopeAfter s

namespace Typing

/-- One thing to be checked about a statement. -/
inductive Duty where
  | declare (name : String) (type : ScalarType) (init : Option Expr)
  | effect (e : Expr)
  | condition (e : Expr)
  | ret (value : Option Expr)
  /-- A rule about where a statement may stand. -/
  | rule (holds : Bool) (fault : TypeFault)

namespace Duty

def check (d : Descriptor) (m : Method) (s : Scope) : Duty → Except TypeFault Unit
  | declare name type init => (checkDeclare d s name type init).map fun _ => ()
  | effect e => (typeOf d s e).map fun _ => ()
  | condition e => checkCondition d s e
  | ret value => checkReturn d m s value
  | rule holds fault => if holds then .ok () else .error fault

/-- The expressions that get a type. -/
def exprs : Duty → List Expr
  | declare _ _ init => init.toList
  | effect e => [e]
  | condition e => [e]
  | ret value => value.toList
  | rule _ _ => []

end Duty

/-- A duty at the statement with an ordinal, in the scope that is in force there. -/
structure Task where
  position : Nat
  scope : Scope
  duty : Duty

def Task.check (d : Descriptor) (m : Method) (t : Task) : Except LocatedFault Unit :=
  locate t.position (t.duty.check d m t.scope)

mutual

def stmtTasks (inLoop : Bool) (p : Nat) (s : Scope) : Stmt → List Task
  | .declare name type init => [⟨p, s, .declare name type init⟩]
  | .expr e => [⟨p, s, .effect e⟩]
  | .branch cond thenBody elseBody =>
    [⟨p, s, .condition cond⟩] ++ (bodyTasks inLoop (p + 1) s.push thenBody
      ++ bodyTasks inLoop (p + 1 + Stmt.count thenBody) s.push elseBody)
  | .whileLoop cond body => [⟨p, s, .condition cond⟩] ++ bodyTasks true (p + 1) s.push body
  | .doWhile body cond => bodyTasks true (p + 1) s.push body ++ [⟨p, s, .condition cond⟩]
  | .forLoop init cond update body =>
    let inner := Stmt.scopeAfterAll s.push init
    initTasks inLoop (p + 1) s.push init ++ (cond.toList.map (⟨p, inner, .condition ·⟩)
      ++ (update.map (⟨p, inner, .effect ·⟩)
        ++ bodyTasks true (p + 1 + Stmt.count init) inner.push body))
  | .breakLoop => [⟨p, s, .rule inLoop .strayBreak⟩]
  | .continueLoop => [⟨p, s, .rule inLoop .strayContinue⟩]
  | .ret value => [⟨p, s, .ret value⟩]
  | .block body => bodyTasks inLoop (p + 1) s.push body

def bodyTasks (inLoop : Bool) (p : Nat) (s : Scope) : List Stmt → List Task
  | [] => []
  | st :: rest =>
    stmtTasks inLoop p s st ++ bodyTasks inLoop (p + st.flatten.length) (st.scopeAfter s) rest

def initTasks (inLoop : Bool) (p : Nat) (s : Scope) : List Stmt → List Task
  | [] => []
  | st :: rest =>
    ⟨p, s, .rule (isInitializer st) .badInitializer⟩ :: (stmtTasks inLoop p s st
      ++ initTasks inLoop (p + st.flatten.length) (st.scopeAfter s) rest)

end

/-- The tasks of a method's body. -/
def methodTasks (m : Method) : List Task := bodyTasks false 0 (.ofMethod m) m.body

variable {d : Descriptor} {m : Method}

/-- The check goes through the tasks in order; if none fails it ends with the result. -/
def Performs {α : Type} (d : Descriptor) (m : Method) (x : Except LocatedFault α)
    (tasks : List Task) (result : α) : Prop :=
  x = forM tasks (Task.check d m) >>= fun _ => .ok result

namespace Performs

variable {α β : Type}

theorem ret (a : α) : Performs d m (.ok a) [] a := rfl

theorem task (t) : Performs d m (t.check d m) [t] () := by
  unfold Performs
  rw [forM_cons]
  cases t.check d m <;> rfl

theorem andThen (first : Performs d m x tasks a) (next : Performs d m (f a) tasks' b) :
    Performs d m (x >>= f) (tasks ++ tasks') b := by
  unfold Performs at first next ⊢
  rw [first, forM_append]
  cases forM tasks (Task.check d m) with
  | error fault => rfl
  | ok _ => exact next

/-- The last part only gives the result. -/
theorem thenRet (first : Performs d m x tasks a) (g : α → β) :
    Performs d m (x >>= fun a => .ok (g a)) tasks (g a) := by
  unfold Performs at first ⊢
  rw [first]
  cases forM tasks (Task.check d m) <;> rfl

end Performs

theorem declare_performs (p s name type init) :
    Performs d m (locate p (checkDeclare d s name type init)) [⟨p, s, .declare name type init⟩]
      (s.declare name type) := by
  unfold Performs
  rw [forM_cons]
  simp only [Task.check, Duty.check]
  cases checked : checkDeclare d s name type init with
  | error fault => rfl
  | ok s' =>
    have declared : checkStmt d m false p s (.declare name type init) = .ok s' :=
      locate_eq_ok.mpr checked
    obtain ⟨-, -, rfl⟩ := checkStmt_declare declared
    rfl

theorem effect_performs (p s e) :
    Performs d m (locate p (typeOf d s e) >>= fun _ => .ok s) [⟨p, s, .effect e⟩] s := by
  unfold Performs
  rw [forM_cons]
  simp only [Task.check, Duty.check]
  cases typeOf d s e <;> rfl

theorem updates_perform (p s update) :
    Performs d m (locate p (checkUpdates d s update)) (update.map (⟨p, s, .effect ·⟩)) () := by
  induction update with
  | nil => rfl
  | cons e rest ih =>
    unfold Performs at ih ⊢
    rw [map_cons, forM_cons, checkUpdates]
    simp only [Task.check, Duty.check]
    cases typeOf d s e with
    | error fault => rfl
    | ok type => exact ih

mutual

/-- By induction on statements. -/
theorem checkStmt_performs (inLoop : Bool) (p : Nat) (s : Scope) :
    ∀ st : Stmt, Performs d m (checkStmt d m inLoop p s st) (stmtTasks inLoop p s st)
      (st.scopeAfter s)
  | .declare name type init => declare_performs p s name type init
  | .expr e => effect_performs p s e
  | .branch cond thenBody elseBody =>
    (Performs.task ⟨p, s, .condition cond⟩).andThen
      ((checkBody_performs inLoop (p + 1) s.push thenBody).andThen
        ((checkBody_performs inLoop _ s.push elseBody).thenRet fun _ => s))
  | .whileLoop cond body =>
    (Performs.task ⟨p, s, .condition cond⟩).andThen
      ((checkBody_performs true (p + 1) s.push body).thenRet fun _ => s)
  | .doWhile body cond =>
    (checkBody_performs true (p + 1) s.push body).andThen
      ((Performs.task ⟨p, s, .condition cond⟩).thenRet fun _ => s)
  | .forLoop init cond update body => by
    refine (checkInits_performs inLoop (p + 1) s.push init).andThen ?_
    have rest : Performs d m (do
        locate p (checkUpdates d (Stmt.scopeAfterAll s.push init) update)
        let _ ← checkBody d m true (p + 1 + Stmt.count init)
          (Stmt.scopeAfterAll s.push init).push body
        return s) _ s :=
      (updates_perform p _ update).andThen
        ((checkBody_performs true (p + 1 + Stmt.count init) _ body).thenRet fun _ => s)
    cases cond with
    | none => exact rest
    | some c => exact (Performs.task ⟨p, _, .condition c⟩).andThen rest
  | .breakLoop | .continueLoop => by
    unfold Performs
    cases inLoop <;> rfl
  | .ret value => (Performs.task ⟨p, s, .ret value⟩).thenRet fun _ => s
  | .block body => (checkBody_performs inLoop (p + 1) s.push body).thenRet fun _ => s

theorem checkBody_performs (inLoop : Bool) (p : Nat) (s : Scope) :
    ∀ stmts : List Stmt, Performs d m (checkBody d m inLoop p s stmts) (bodyTasks inLoop p s stmts)
      (Stmt.scopeAfterAll s stmts)
  | [] => .ret s
  | st :: rest =>
    (checkStmt_performs inLoop p s st).andThen (checkBody_performs inLoop _ (st.scopeAfter s) rest)

theorem checkInits_performs (inLoop : Bool) (p : Nat) (s : Scope) :
    ∀ stmts : List Stmt, Performs d m (checkInits d m inLoop p s stmts) (initTasks inLoop p s stmts)
      (Stmt.scopeAfterAll s stmts)
  | [] => .ret s
  | st :: rest => by
    have started : Performs d m (do
        let s ← checkStmt d m inLoop p s st
        checkInits d m inLoop (p + st.flatten.length) s rest) _ _ :=
      (checkStmt_performs inLoop p s st).andThen
        (checkInits_performs inLoop _ (st.scopeAfter s) rest)
    unfold Performs at started ⊢
    rw [checkInits, initTasks, forM_cons]
    cases initializer : isInitializer st with
    | false => rfl
    | true => exact started

end

/-! ## Parts of expressions that have a type -/

section Parts

variable {s : Scope}

/-- The expression is a value of some type, or a call of a void method. -/
def HasType (d : Descriptor) (s : Scope) (e : Expr) : Prop := ∃ result, typeOf d s e = .ok result

theorem checkArgs_each : ∀ {params : List Param} {args : List Expr},
    args.length = params.length → checkArgs d s params args = .ok () → ∀ e ∈ args, HasType d s e
  | [], [], _, _, _, member => nomatch member
  | p :: params, e :: rest, same, checked, e', member => by
    obtain ⟨first, others⟩ := checkArgs_cons checked
    rcases mem_cons.mp member with rfl | member
    · exact ⟨_, first⟩
    · exact checkArgs_each (Nat.succ.inj same) others e' member

theorem checkOperands_each {op : AtomicOp} {w : SlotWidth} : ∀ {args : List Expr},
    checkOperands d s op w args = .ok () → ∀ e ∈ args, HasType d s e
  | [], _, _, member => nomatch member
  | e :: rest, checked, e', member => by
    obtain ⟨first, others⟩ := checkOperands_cons checked
    rcases mem_cons.mp member with rfl | member
    · exact ⟨_, first⟩
    · exact checkOperands_each others e' member

theorem valueTypes_each : ∀ {args : List Expr} {types : List ScalarType},
    valueTypes d s args = .ok types → ∀ e ∈ args, HasType d s e
  | [], _, _, _, member => nomatch member
  | e :: rest, _, typed, e', member => by
    obtain ⟨t, ts, rfl, first, others⟩ := valueTypes_cons typed
    rcases mem_cons.mp member with rfl | member
    · exact ⟨_, first⟩
    · exact valueTypes_each others e' member

theorem place_parts (typed : placeType d s p = .ok t) : ∀ part ∈ p.parts, HasType d s part := by
  cases p with
  | element array index => exact forall_mem_singleton.mpr ⟨_, (placeType_element typed).1⟩
  | _ => exact forall_mem_nil _

theorem slot_parts {isArray : Bool} : ∀ {slot : SlotRef Expr},
    checkSlot d s isArray slot = .ok () → ∀ part ∈ slot.index.toList, HasType d s part
  | ⟨_, none⟩, _ => forall_mem_nil _
  | ⟨_, some _⟩, named => forall_mem_singleton.mpr ⟨_, (checkSlot_index named).2⟩

theorem haveType_parts (e) : HasType d s e → ∀ part ∈ e.parts, HasType d s part := by
  rintro ⟨result, typed⟩
  cases e with
  | literal | var | field | length => exact forall_mem_nil _
  | element array index =>
    obtain ⟨_, -, position, -⟩ := typeOf_element typed
    exact forall_mem_singleton.mpr ⟨_, position⟩
  | binary op lhs rhs =>
    obtain ⟨_, _, _, -, left, right, -⟩ := typeOf_binary typed
    exact forall_mem_cons.mpr ⟨⟨_, left⟩, forall_mem_singleton.mpr ⟨_, right⟩⟩
  | unary op operand =>
    obtain ⟨_, _, -, inner, -⟩ := typeOf_unary typed
    exact forall_mem_singleton.mpr ⟨_, inner⟩
  | conditional cond thenValue elseValue =>
    obtain ⟨_, -, condition, first, second⟩ := typeOf_conditional typed
    exact forall_mem_cons.mpr ⟨⟨_, condition⟩, forall_mem_cons.mpr ⟨⟨_, first⟩,
      forall_mem_singleton.mpr ⟨_, second⟩⟩⟩
  | cast type value implicit =>
    obtain ⟨-, _, source, -⟩ := typeOf_cast typed
    exact forall_mem_singleton.mpr ⟨_, source⟩
  | assign target op value =>
    obtain ⟨_, _, -, place, source, -⟩ := typeOf_assign typed
    exact forall_mem_append.mpr ⟨place_parts place, forall_mem_singleton.mpr ⟨_, source⟩⟩
  | step target op before =>
    obtain ⟨_, -, place, -⟩ := typeOf_step typed
    exact place_parts place
  | call name args =>
    obtain ⟨_, -, -, arity, given, -⟩ := typeOf_call typed
    exact checkArgs_each arity given
  | atomic op slot args =>
    obtain ⟨_, _, -, -, -, named, -, given⟩ := typeOf_atomic typed
    exact forall_mem_append.mpr ⟨slot_parts named, checkOperands_each given⟩
  | builtin func args =>
    obtain ⟨_, _, -, -, given, -⟩ := typeOf_builtin typed
    exact valueTypes_each given

/-- Every part of an expression that has a type has one in the same scope. -/
theorem nodes_haveType (e) (h : HasType d s e) : ∀ n ∈ e.nodes, HasType d s n :=
  Expr.nodes_listed.forall_mem haveType_parts h

end Parts

/-- Every expression of a task that is done has a type. -/
theorem Duty.exprs_haveType {s : Scope} {duty : Duty} (done : duty.check d m s = .ok ()) :
    ∀ e ∈ duty.exprs, HasType d s e := by
  intro e member
  cases duty with
  | declare name type init =>
    cases init with
    | none => cases member
    | some init =>
      obtain rfl := mem_singleton.mp member
      simp only [Duty.check] at done
      cases checked : checkDeclare d s name type (some e) with
      | error fault =>
        rw [checked] at done
        cases done
      | ok s' =>
        have declared : checkStmt d m false 0 s (.declare name type (some e)) = .ok s' :=
          locate_eq_ok.mpr checked
        exact ⟨_, (checkStmt_declare declared).1 e rfl⟩
  | effect e' =>
    obtain rfl := mem_singleton.mp member
    simp only [Duty.check] at done
    cases typed : typeOf d s e with
    | error fault =>
      rw [typed] at done
      cases done
    | ok result => exact ⟨result, typed⟩
  | condition e' =>
    obtain rfl := mem_singleton.mp member
    exact ⟨_, checkCondition_eq_ok.mp done⟩
  | ret value =>
    cases value with
    | none => cases member
    | some value =>
      obtain rfl := mem_singleton.mp member
      have returned : checkStmt d m false 0 s (.ret (some e)) = .ok s :=
        Outcome.bind_eq_ok.mpr ⟨(), locate_eq_ok.mpr done, rfl⟩
      obtain ⟨t, typed, -⟩ := (checkStmt_ret returned).1
      exact ⟨_, typed⟩
  | rule holds fault => cases member

end Typing

end GridKernel
