import GridKernel.Proofs.Ensures
import GridKernel.Proofs.Target.Statements

/-!
# Locals that hold no value

Which locals hold no value makes no difference to an expression until it reads one of them. So a
statement about runs in which every local holds a value carries over to all runs, as far as they
get.
-/

namespace GridKernel.Target

/-- The same state with a value in every local. -/
def State.allSet (s : State) : State := { s with unset := [] }

@[simp] theorem State.allSet_unset (s : State) : s.allSet.unset = [] := rfl

theorem State.allSet_eq {s : State} (set : s.unset = []) : s.allSet = s := by
  obtain ⟨machine, temps, unset, schedule⟩ := s
  cases set
  rfl

variable {α β : Type}

/-- How a run ends, next to how it ends when every local holds a value. -/
inductive Lifts : EStateM.Result Fault State α → EStateM.Result Fault State α → Prop
  | ok (a : α) (t : State) : Lifts (.ok a t.allSet) (.ok a t)
  | error {f : Fault} (reason : f ≠ .indeterminate) (t : State) :
      Lifts (.error f t.allSet) (.error f t)
  | early {r : EStateM.Result Fault State α} (clean : ∀ t, r ≠ .error .indeterminate t)
      (t : State) : Lifts r (.error .indeterminate t)

/-- The locals without a value make no difference until one of them is read. -/
def Tame (x : Exec α) : Prop := ∀ s : State, Lifts (x s.allSet) (x s)

/-- Where every local holds a value, it stays so, and no other one is read. -/
def Determinate (x : Exec α) : Prop := ∀ s : State, s.unset = [] →
  Ensures x s (fun _ t => t.unset = []) fun f _ => f ≠ .indeterminate

namespace Tame

theorem determinate {x : Exec α} (h : Tame x) : Determinate x := by
  intro s set
  have ended : ∀ {r r' : EStateM.Result Fault State α}, Lifts r r' → r = r' →
      Ensures (fun _ => r) s (fun _ t => t.unset = []) fun f _ => f ≠ .indeterminate := by
    intro r r' lifts same
    cases lifts with
    | ok a t => rfl
    | error reason t => exact reason
    | early clean t => exact absurd same (clean t)
  have lifts := h s
  rw [State.allSet_eq set] at lifts
  exact ended lifts rfl

theorem ret (a : α) : Tame (pure a : Exec α) := fun s => .ok a s

theorem fault (reason : f ≠ .indeterminate) : Tame (throw f : Exec α) :=
  fun s => .error reason s

theorem andThen (h : Tame x) (next : ∀ a, Tame (k a)) : Tame (x >>= k) := by
  intro s
  have ended : Ensures (x >>= k) s.allSet (fun _ _ => True) fun f _ => f ≠ .indeterminate :=
    (h.determinate s.allSet s.allSet_unset).andThen fun a t set =>
      ((next a).determinate t set).mono fun _ _ _ => trivial
  have lifts := h s
  change Lifts (EStateM.bind x k s.allSet) (EStateM.bind x k s)
  change Ensures (EStateM.bind x k) s.allSet _ _ at ended
  unfold Ensures at ended
  unfold EStateM.bind at ended ⊢
  generalize x s = r at lifts ⊢
  generalize x s.allSet = r' at lifts ended ⊢
  cases lifts with
  | ok a t => exact next a t
  | error reason t => exact .error reason t
  | early clean t =>
    refine .early ?_ t
    intro t' failed
    dsimp only at ended
    rw [failed] at ended
    exact ended rfl

theorem onMachine (x : Eval.Comp α) : Tame (Target.onMachine x) := by
  intro s
  unfold Target.onMachine
  rw [show s.allSet.machine = s.machine from rfl]
  cases x s.machine with
  | ok a m => exact .ok a { s with machine := m }
  | error reason m => exact .error (f := .stopped reason) nofun { s with machine := m }

/-- A computation that looks at the state, but not at which locals hold a value. -/
theorem fromState (same : ∀ s, k s.allSet = k s) (h : ∀ s, Tame (k s)) : Tame (get >>= k) := by
  intro s
  change Lifts (k s.allSet s.allSet) (k s s)
  rw [same]
  exact h s s

theorem modified (same : ∀ s, f s.allSet = (f s).allSet) : Tame (modify f : Exec Unit) := by
  intro s
  change Lifts (.ok () (f s.allSet)) (.ok () (f s))
  rw [same]
  exact .ok () (f s)

theorem orUndefined (o : Option α) : Tame (Target.orUndefined o) := by
  cases o with
  | none => exact fault nofun
  | some a => exact ret a

theorem nextChoice : Tame Target.nextChoice := fun s =>
  .ok (s.schedule.headD 0) { s with schedule := s.schedule.tail }

theorem anyOrder (h : ∀ x ∈ xs, Tame x) (n) : Tame (Target.anyOrder n xs) := by
  induction n generalizing xs with
  | zero => exact ret []
  | succ n ih =>
    refine nextChoice.andThen fun choice => ?_
    dsimp only
    cases found : xs[choice % (n + 1)]? with
    | none => exact fault nofun
    | some x =>
      have tame := h x (List.mem_of_getElem? found)
      have others : ∀ y ∈ xs.eraseIdx (choice % (n + 1)), Tame y :=
        fun y member => h y (List.mem_of_mem_eraseIdx member)
      exact tame.andThen fun a => (ih others).andThen fun rest => ret _

theorem unsequenced (h : ∀ x ∈ xs, Tame x) : Tame (Target.unsequenced xs) := by
  refine (anyOrder h xs.length).andThen fun results => ?_
  split
  · exact ret _
  · exact fault nofun

theorem joined (a : α × Accesses) (b : β × Accesses) : Tame (Target.joined a b) := by
  unfold Target.joined
  split
  · exact ret _
  · exact fault nofun

theorem both (first : Tame x) (second : Tame y) : Tame (Target.both x y) := by
  refine nextChoice.andThen fun choice => ?_
  split
  · exact first.andThen fun a => second.andThen fun b => joined a b
  · exact second.andThen fun b => first.andThen fun a => joined a b

/-! ## Storage -/

variable (c : Eval.Context) (types : Temps)

/-- This is where a local without a value makes a difference. -/
theorem read_var (name) : Tame (Target.read c (.var name)) := by
  intro s
  have set : s.allSet.isUnset name = false := by
    unfold State.isUnset
    cases s.allSet.place? name <;> rfl
  change Lifts ((if s.allSet.isUnset name then throw .indeterminate
    else Target.onMachine (Eval.readLocal name)) s.allSet)
    ((if s.isUnset name then throw .indeterminate
      else Target.onMachine (Eval.readLocal name)) s)
  have tame := onMachine (Eval.readLocal name)
  rw [set]
  cases s.isUnset name with
  | false => exact tame s
  | true =>
    refine .early ?_ s
    intro t failed
    exact (tame.determinate s.allSet s.allSet_unset).of_error failed rfl

theorem read (st) : Tame (Target.read c st) := by
  cases st with
  | var name => exact read_var c name
  | temp n => exact fromState (fun _ => rfl) fun s => orUndefined _
  | field name | element array i => exact onMachine _

theorem write (v st) : Tame (Target.write c v st) := by
  cases st with
  | var name => exact (onMachine _).andThen fun _ => modified fun _ => rfl
  | temp n => exact modified fun _ => rfl
  | field name | element array i => exact onMachine _

theorem declaredType (st) : Tame (Target.declaredType c types st) := by
  cases st with
  | var name => exact fromState (fun _ => rfl) fun s => (orUndefined _).andThen fun v => ret _
  | temp n | field name | element array i => exact orUndefined _

theorem loadFrom (st acc) : Tame (Target.loadFrom c st acc) := by
  unfold Target.loadFrom
  split
  · exact fault nofun
  · exact (read c st).andThen fun v => ret _

theorem storeTo (st v acc) : Tame (Target.storeTo c types st v acc) := by
  unfold Target.storeTo
  split
  · exact fault nofun
  · exact (declaredType c types st).andThen fun t => (write c _ st).andThen fun _ => ret _

/-! ## Functions -/

variable (steps : Nat)

theorem atomicFunction (op w field index args) :
    Tame (Target.atomicFunction c op w field index args) := by
  unfold Target.atomicFunction
  split
  · exact (onMachine _).andThen fun operands => onMachine _
  · exact fault nofun

theorem function (callee args) : Tame (Target.function c steps callee args) := by
  unfold Target.function
  split
  · exact (orUndefined _).andThen fun m => (onMachine _).andThen fun r => orUndefined r
  · exact ret _
  · exact ret _
  · exact onMachine _
  · exact onMachine _
  · exact fault nofun

end Tame

/-! ## Expressions -/

section

variable (c : Eval.Context) (steps : Nat) (types : Temps)

mutual

theorem exec_tame : ∀ e : Expr, Tame (exec c steps types e)
  | .literal _ => .ret _
  | .var _ | .temp _ | .member _ => .loadFrom c _ _
  | .lengthOf _ => (Tame.onMachine _).andThen fun _ => .ret _
  | .element _ index =>
    (exec_tame index).andThen fun _ => (Tame.onMachine _).andThen fun _ => .loadFrom c _ _
  | .addressOf _ _ => .fault nofun
  | .paren e => exec_tame e
  | .binary op lhs rhs => by
    unfold exec
    split
    · refine (exec_tame lhs).andThen fun l => (Tame.onMachine _).andThen fun b => ?_
      split
      · exact .ret _
      · exact (exec_tame rhs).andThen fun r => (Tame.onMachine _).andThen fun _ => .ret _
    · exact (Tame.both (exec_tame lhs) (exec_tame rhs)).andThen fun _ =>
        (Tame.onMachine _).andThen fun _ => .ret _
  | .shiftUnsigned _ lhs rhs =>
    (Tame.both (exec_tame lhs) (exec_tame rhs)).andThen fun _ =>
      (Tame.onMachine _).andThen fun _ => .ret _
  | .unary _ operand =>
    (exec_tame operand).andThen fun _ => (Tame.onMachine _).andThen fun _ => .ret _
  | .conditional cond thenValue elseValue => by
    unfold exec
    refine (exec_tame cond).andThen fun b => (Tame.onMachine _).andThen fun holds => ?_
    split
    · exact (exec_tame thenValue).andThen fun _ => .ret _
    · exact (exec_tame elseValue).andThen fun _ => .ret _
  | .cast type value => by
    unfold exec
    refine (exec_tame value).andThen fun r => ?_
    dsimp only
    split
    · exact .fault nofun
    · exact .ret _
  | .call callee args => by
    have plain := (Tame.unsequenced (execs_tame args)).andThen fun r =>
      (Tame.function c steps callee r.1).andThen fun v => Tame.ret (v, r.2.settled)
    cases callee with
    | atomic op w =>
      cases args with
      | nil => exact plain
      | cons first rest =>
        cases first with
        | member field =>
          exact (Tame.unsequenced (execs_tame rest)).andThen fun _ =>
            (Tame.atomicFunction c _ _ _ _ _).andThen fun _ => .ret _
        | addressOf field index =>
          have operands := List.forall_mem_cons.mpr ⟨exec_tame index, execs_tame rest⟩
          refine (Tame.unsequenced operands).andThen ?_
          rintro ⟨values, acc⟩
          cases values with
          | nil => exact .fault nofun
          | cons i operands => exact (Tame.atomicFunction c _ _ _ _ _).andThen fun _ => .ret _
        | _ => exact plain
    | _ => exact plain
  | .assign target value =>
    (Tame.both (locate_tame target) (exec_tame value)).andThen fun _ => .storeTo c types _ _ _
  | .compound _ target value =>
    (Tame.both (fetch_tame target) (exec_tame value)).andThen fun _ =>
      (Tame.onMachine _).andThen fun _ => .storeTo c types _ _ _
  | .step _ _ target =>
    (fetch_tame target).andThen fun _ => (Tame.onMachine _).andThen fun _ =>
      (Tame.storeTo c types _ _ _).andThen fun _ => .ret _
  | .comma first value =>
    (execInOrder_tame first).andThen fun _ => (exec_tame value).andThen fun _ => .ret _

theorem locate_tame : ∀ e : Expr, Tame (locate c steps types e)
  | .var _ | .temp _ | .member _ => .ret _
  | .element _ index =>
    (exec_tame index).andThen fun _ => (Tame.onMachine _).andThen fun _ => .ret _
  | .literal _ | .lengthOf _ | .addressOf _ _ | .paren _ | .binary _ _ _ | .shiftUnsigned _ _ _
  | .unary _ _ | .conditional _ _ _ | .cast _ _ | .call _ _ | .assign _ _ | .compound _ _ _
  | .step _ _ _ | .comma _ _ => .fault nofun

theorem fetch_tame : ∀ e : Expr, Tame (fetch c steps types e)
  | .var _ | .member _ => (Tame.loadFrom c _ _).andThen fun _ => .ret _
  | .element _ index =>
    (exec_tame index).andThen fun _ => (Tame.onMachine _).andThen fun _ =>
      (Tame.loadFrom c _ _).andThen fun _ => .ret _
  | .temp _ | .literal _ | .lengthOf _ | .addressOf _ _ | .paren _ | .binary _ _ _
  | .shiftUnsigned _ _ _ | .unary _ _ | .conditional _ _ _ | .cast _ _ | .call _ _ | .assign _ _
  | .compound _ _ _ | .step _ _ _ | .comma _ _ => .fault nofun

theorem execs_tame : ∀ es : List Expr, ∀ x ∈ execs c steps types es, Tame x
  | [] => List.forall_mem_nil _
  | e :: rest => List.forall_mem_cons.mpr ⟨exec_tame e, execs_tame rest⟩

theorem execInOrder_tame : ∀ es : List Expr, Tame (execInOrder c steps types es)
  | [] => .ret _
  | e :: rest =>
    (exec_tame e).andThen fun _ => (execInOrder_tame rest).andThen fun _ => .ret _

end

/-! ## Statements -/

variable {c steps types}

theorem test_tame (e) : Tame (test c steps types e) :=
  (exec_tame c steps types e).andThen fun _ => .onMachine _

theorem testOption_tame (o) : Tame (testOption c steps types o) := by
  cases o with
  | none => exact .ret true
  | some e => exact test_tame e

theorem discard_tame (e) : Tame (discard c steps types e) := by
  unfold discard
  split
  · rename_i method args
    exact (Tame.unsequenced (execs_tame c steps types args)).andThen fun _ =>
      (Tame.orUndefined _).andThen fun _ => (Tame.onMachine _).andThen fun _ => .ret ()
  · exact (exec_tame c steps types _).andThen fun _ => .ret ()

end

namespace Determinate

theorem andThen (h : Determinate x) (next : ∀ a, Determinate (k a)) :
    Determinate (x >>= k) := fun s set =>
  (h s set).andThen fun a t set' => next a t set'

theorem enclosed (h : Determinate x) : Determinate (Target.enclosed x) := by
  intro s set
  refine Ensures.fromState ((h s set).andThen fun a t set' => ?_)
  refine ((Tame.onMachine _).determinate t set').andThen fun _ u set'' => ?_
  refine Ensures.changed (Ensures.ret ?_)
  simp [set'']

theorem rounds {round : Exec (Option Eval.Flow)} (h : Determinate round) (n) :
    Determinate (Target.rounds round n) := by
  induction n with
  | zero => exact (Tame.fault (f := .stopped .exhausted) nofun).determinate
  | succ n ih =>
    refine h.andThen fun flow => ?_
    cases flow with
    | none => exact ih
    | some flow => exact (Tame.ret flow).determinate

end Determinate

section

theorem execDeclare_determinate (apart : initializesItself name init = false)
    (given : lacksInitializer name init = false) :
    Determinate (execDeclare c steps types type name init) := by
  cases init with
  | none => cases given
  | some e =>
    rw [execDeclare_apart apart]
    exact ((exec_tame c steps types e).andThen fun _ => .onMachine _).determinate

theorem execInit_determinate (apart : init.any (·.declares initializesItself) = false)
    (given : init.any (·.declares lacksInitializer) = false) :
    Determinate (execInit c steps types init) := by
  cases init with
  | none => exact (Tame.ret ()).determinate
  | some init =>
    cases init with
    | declare type name init => exact execDeclare_determinate apart given
    | expr e => exact (discard_tame e).determinate

mutual

/-- A statement reads no local without a value if every declaration in it has an initializer that
does not mention it. -/
theorem execStmt_determinate : ∀ s : Stmt, s.declares initializesItself = false →
    s.declares lacksInitializer = false → Determinate (execStmt c steps types s)
  | .declare type name init, apart, given =>
    (execDeclare_determinate apart given).andThen fun _ => (Tame.ret _).determinate
  | .expr e, _, _ => ((discard_tame e).andThen fun _ => .ret _).determinate
  | .branch cond thenBody elseBody, apart, given => by
    simp only [Stmt.declares, Bool.or_eq_false_iff] at apart given
    refine (test_tame cond).determinate.andThen fun holds => ?_
    cases holds with
    | true => exact (execStmts_determinate thenBody apart.1 given.1).enclosed
    | false => exact (execStmts_determinate elseBody apart.2 given.2).enclosed
  | .whileLoop cond body, apart, given => by
    refine Determinate.rounds ((test_tame cond).determinate.andThen fun holds => ?_) steps
    cases holds with
    | true =>
      exact (execStmts_determinate body apart given).enclosed.andThen fun _ =>
        (Tame.ret _).determinate
    | false => exact (Tame.ret _).determinate
  | .doWhile body cond, apart, given => by
    refine Determinate.rounds
      ((execStmts_determinate body apart given).enclosed.andThen fun flow => ?_) steps
    cases ending flow with
    | some flow => exact (Tame.ret _).determinate
    | none => exact ((test_tame cond).andThen fun _ => .ret _).determinate
  | .forLoop init cond update body, apart, given => by
    simp only [Stmt.declares, Bool.or_eq_false_iff] at apart given
    refine Determinate.enclosed ((execInit_determinate apart.1 given.1).andThen fun _ => ?_)
    refine Determinate.rounds ((testOption_tame cond).determinate.andThen fun holds => ?_) steps
    cases holds with
    | false => exact (Tame.ret _).determinate
    | true =>
      refine (execStmts_determinate body apart.2 given.2).enclosed.andThen fun flow => ?_
      cases ending flow with
      | some flow => exact (Tame.ret _).determinate
      | none => exact ((execInOrder_tame c steps types update).andThen fun _ => .ret _).determinate
  | .breakLoop, _, _ | .continueLoop, _, _ | .ret none, _, _ => (Tame.ret _).determinate
  | .ret (some e), _, _ => ((exec_tame c steps types e).andThen fun _ => .ret _).determinate
  | .block body, apart, given => (execStmts_determinate body apart given).enclosed

theorem execStmts_determinate : ∀ ss : List Stmt, Stmt.anyDeclares initializesItself ss = false →
    Stmt.anyDeclares lacksInitializer ss = false → Determinate (execStmts c steps types ss)
  | [], _, _ => (Tame.ret _).determinate
  | s :: rest, apart, given => by
    simp only [Stmt.anyDeclares, Bool.or_eq_false_iff] at apart given
    refine (execStmt_determinate s apart.1 given.1).andThen fun flow => ?_
    cases flow with
    | normal => exact execStmts_determinate rest apart.2 given.2
    | _ => exact (Tame.ret _).determinate

end

end

end GridKernel.Target
