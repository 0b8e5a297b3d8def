import GridKernel.Proofs.Target.Follows
import GridKernel.Proofs.Target.Meaning

/-!
# Translated statements

Every statement of a checked method has a translation, and the translation follows it. Here are
the statements without loops.
-/

namespace GridKernel.Target

open List
open Eval (Context Machine Holds Flow)
open Typing (typeOf check)

/-- What a translation may come to because of the declarations and the expressions in it. -/
structure Allows (itself : Prop) (out : List Stmt) (nodes : List GridKernel.Expr) : Prop where
  apart : Stmt.anyDeclares initializesItself out = false
  clash : SelfIndexed nodes → itself

namespace Allows

variable {itself : Prop} {out : List Stmt} {nodes : List GridKernel.Expr}

/-- A part of the statements. -/
theorem sub (h : Allows itself out nodes)
    (declared : Stmt.anyDeclares initializesItself out = false →
      Stmt.anyDeclares initializesItself out' = false)
    (found : ∀ e ∈ nodes', e ∈ nodes) : Allows itself out' nodes' where
  apart := declared h.apart
  clash nodes := h.clash (nodes.mono found)

end Allows

/-- Statements are translated, with the temporaries before and after them, and the translation
follows them. -/
structure Translated (c : Context) (s : Scope) (translate : Emit (List Stmt × Scope))
    (run : Nat → Eval.Comp Flow) (nodes : List GridKernel.Expr) (s' : Scope) (temps : Temps)
    (out : List Stmt) (temps' : Temps) : Prop where
  translation : translate temps = .ok ((out, s'), temps')
  grows : temps <+: temps'
  follows : ∀ {types n steps callers m flow m' itself}, temps' <+: types → n ≤ steps →
    Holds c s.names callers m → run n m = .ok flow m' → Allows itself out nodes →
    Follows itself m (execStmts c steps types out) (· = flow) m'

def FaithfulStmt (c : Context) (s : Scope) (st : GridKernel.Stmt) (s' : Scope) : Prop :=
  ∀ temps, ∃ out temps', Translated c s (stmt c.descriptor s st) (fun n => Eval.stmt c n st)
    st.nodes s' temps out temps'

def FaithfulBody (c : Context) (s : Scope) (stmts : List GridKernel.Stmt) (s' : Scope) : Prop :=
  ∀ temps, ∃ out temps', Translated c s (body c.descriptor s stmts)
    (fun n => Eval.stmts c n stmts) (Stmt.allNodes stmts) s' temps out temps'

section

variable {c : Context} {s s' : Scope}

theorem faithful_declare (name type) :
    FaithfulStmt c s (.declare name type none) (s.declare name type) := by
  intro temps
  refine ⟨[.declare type name none], temps, rfl, prefix_rfl, ?_⟩
  intro types n steps callers m flow m' itself inside enough holds ended allowed
  cases n with
  | zero => cases ended
  | succ n =>
    cases ended
    rw [execStmts_single]
    intro state machine
    refine Ensures.changed (Ensures.ret ⟨rfl, ?_⟩)
    rw [← machine]

section

variable (checked : check c.descriptor = .ok ())
include checked

theorem faithful_initialize (typed : typeOf c.descriptor s e = .ok (some t)) (name) :
    FaithfulStmt c s (.declare name t (some e)) (s.declare name t) := by
  intro temps
  obtain ⟨em, temps', rendered⟩ := faithful checked e typed temps
  refine ⟨em.lifted ++ [.declare t name (some em.value)], temps', emit_bind rendered.translation,
    rendered.grows, ?_⟩
  intro types n steps callers m flow m' itself inside enough holds ended allowed
  cases n with
  | zero => cases ended
  | succ n =>
    obtain ⟨v, m₁, evaluated, later⟩ := bind_ok ended
    obtain ⟨_, m₂, declared, finished⟩ := bind_ok later
    cases finished
    have apart : initializesItself name (some em.value) = false := by
      simpa [Stmt.anyDeclares, Stmt.declares] using allowed.apart
    refine Runs.stmt (rendered.runs inside (Nat.le_of_lt enough) holds evaluated) allowed.clash
      (by rw [execStmt, execDeclare_apart apart, bind_assoc]) ?_
    rintro ⟨_, acc⟩ rfl
    exact (onMachine_follows declared).andThen fun _ _ => .ret rfl

/-- A call that is a statement returns a value if it has one. -/
theorem eval_of_exprStmt (typed : typeOf c.descriptor s e = .ok (some t))
    {callers : Eval.Frame} (holds : Holds c s.names callers m)
    (ended : Eval.stmt c (n + 1) (.expr e) m = .ok flow m') :
    flow = .normal ∧ ∃ k v, k ≤ n + 1 ∧ Eval.eval c k e m = .ok v m' := by
  cases e with
  | call name args =>
    obtain ⟨result, m₁, called, finished⟩ := bind_ok ended
    cases finished
    obtain ⟨method, found, -, arity, arguments, returns⟩ := Typing.typeOf_call typed
    have type := (((Eval.sound checked n).calls found arity arguments holds).of_ok called).1
    rw [← returns] at type
    obtain ⟨v, rfl, -⟩ := Option.map_eq_some_iff.mp type
    refine ⟨rfl, n + 1, v, Nat.le_refl _, ?_⟩
    change EStateM.bind (Eval.call c n name args) _ m = _
    unfold EStateM.bind
    rw [called]
    rfl
  | _ =>
    obtain ⟨v, m₁, evaluated, finished⟩ := bind_ok ended
    cases finished
    exact ⟨rfl, n, v, Nat.le_succ n, evaluated⟩

theorem faithful_effect (typed : typeOf c.descriptor s e = .ok (some t)) : FaithfulStmt c s (.expr e) s := by
  intro temps
  obtain ⟨em, temps', rendered⟩ := faithful checked e typed temps
  refine ⟨em.lifted ++ [.expr em.value], temps', emit_bind rendered.translation,
    rendered.grows, ?_⟩
  intro types n steps callers m flow m' itself inside enough holds ended allowed
  cases n with
  | zero => cases ended
  | succ n =>
    obtain ⟨rfl, k, v, fewer, evaluated⟩ := eval_of_exprStmt checked typed holds ended
    exact Runs.effect (rendered.runs inside (Nat.le_trans fewer enough) holds evaluated) allowed.clash

/-! ### Methods that return nothing -/

/-- A call of a method without a value, as it is translated. -/
theorem void_laid (typed : typeOf c.descriptor s (.call name args) = .ok none) (temps) :
    ∃ ems temps', Laid c s (hazard args) args temps ems temps' ∧
      expr c.descriptor s (.call name args) temps =
        .ok (⟨ems.flatMap Emitted.pre, .call (.helper name) (ems.map Emitted.value), true⟩,
          temps') := by
  obtain ⟨called, -, -, arity, arguments, -⟩ := Typing.typeOf_call typed
  have given := Typing.valueTypes_of_checkArgs arity arguments
  obtain ⟨ems, temps', laid⟩ := Laid.exists_of_faithful (faithful_all checked args)
    (types_of_valueTypes given) (hazard args) temps
  exact ⟨ems, temps', laid, emit_bind laid.inOrder⟩

theorem faithful_void (typed : typeOf c.descriptor s (.call name args) = .ok none) :
    FaithfulStmt c s (.expr (.call name args)) s := by
  intro temps
  obtain ⟨ems, temps', laid, translation⟩ := void_laid checked typed temps
  refine ⟨_, temps', emit_bind translation, laid.grows, ?_⟩
  intro types n steps callers m flow m' itself inside enough holds ended allowed
  cases n with
  | zero => cases ended
  | succ n =>
    obtain ⟨result, m₂, called, finished⟩ := bind_ok ended
    cases finished
    obtain ⟨k, callee, vs, m₁, fewer, found, evaluated, invoked⟩ := invoke_of_call called
    have enough : k ≤ steps := by omega
    refine Follows.lifted ?_
    rw [execStmts_single]
    have clash : SelfIndexed (GridKernel.Expr.listNodes args) → itself := fun found =>
      allowed.clash (found.mono fun _ => mem_cons_of_mem _)
    refine Tame.follows ((execInOrder_tame c steps types _).andThen fun _ =>
      (discard_tame _).andThen fun _ => .ret _) (fun T => ?_) clash
    obtain ⟨mid, T₁, -, ⟨before, -⟩, given⟩ :=
      laid.prepared checked inside holds (chain_of_evalAll enough evaluated) T
    obtain ⟨T₂, -, operands⟩ := given T₁ (.refl temps'.length T₁)
    have taken : Takes (At mid T₁)
        (discard c steps types (.call (.helper name) (ems.map Emitted.value))) (fun _ => True)
        (At m' T₂) (SelfIndexed (GridKernel.Expr.listNodes args)) := by
      refine operands.unsequenced.andThen ?_
      rintro ⟨_, acc⟩ ⟨rfl, -, -⟩
      refine (orUndefined_takes found).eq_andThen ?_
      exact (onMachine_takes (Eval.invoke_more enough invoked)).andThen fun _ _ => .ret trivial
    exact ⟨T₂, before.andThen fun _ _ => taken.andThen fun _ _ => .ret rfl⟩

end

/-! ### Blocks -/

theorem faithful_nil (s) : FaithfulBody c s [] s := by
  intro temps
  refine ⟨[], temps, rfl, prefix_rfl, ?_⟩
  intro types n steps callers m flow m' itself inside enough holds ended allowed
  cases n with
  | zero => cases ended
  | succ n =>
    cases ended
    exact .ret rfl

theorem execStmts_append (first rest) :
    execStmts c steps types (first ++ rest) = (do
      match ← execStmts c steps types first with
      | .normal => execStmts c steps types rest
      | flow => return flow) := by
  induction first with
  | nil => simp only [nil_append, execStmts, pure_bind]
  | cons st others ih =>
    simp only [cons_append, execStmts, ih, bind_assoc]
    refine bind_congr fun flow => ?_
    cases flow <;> simp only [pure_bind]

/-- The locals stay those of a scope. -/
def Stays (c : Context) (s s' : Scope) {α : Type} (x : Nat → Eval.Comp α) (good : α → Prop) :
    Prop :=
  ∀ {n callers m a m'}, Holds c s.names callers m → x n m = .ok a m' → good a →
    Holds c s'.names callers m'

theorem faithful_cons (first : FaithfulStmt c s st s₁) (others : FaithfulBody c s₁ rest s')
    (stays : Stays c s s₁ (fun n => Eval.stmt c n st) (· = .normal)) :
    FaithfulBody c s (st :: rest) s' := by
  intro temps
  obtain ⟨out, temps₁, emits⟩ := first temps
  obtain ⟨out', temps₂, translated'⟩ := others temps₁
  refine ⟨out ++ out', temps₂,
    (emit_bind emits.translation).trans (emit_bind translated'.translation),
    emits.grows.trans translated'.grows, ?_⟩
  intro types n steps callers m flow m' itself inside enough holds ended allowed
  have allowed₁ : Allows itself out st.nodes :=
    allowed.sub (by simp +contextual) fun _ => mem_append_left _
  have allowed₂ : Allows itself out' (Stmt.allNodes rest) :=
    allowed.sub (by simp +contextual) fun _ => mem_append_right _
  cases n with
  | zero => cases ended
  | succ n =>
    obtain ⟨flow₁, m₁, ran, later⟩ := bind_ok ended
    have enough : n ≤ steps := Nat.le_of_lt enough
    rw [execStmts_append]
    refine (emits.follows (translated'.grows.trans inside) enough holds ran
      allowed₁).eq_andThen ?_
    cases flow₁ with
    | normal => exact translated'.follows inside enough (stays holds ran rfl) later allowed₂
    | _ =>
      cases later
      exact .ret rfl

/-- A translated block. -/
theorem Translated.block {stmts : List GridKernel.Stmt} {callers : Eval.Frame}
    (h : Translated c s (body c.descriptor s stmts) (fun n => Eval.stmts c n stmts)
      (Stmt.allNodes stmts) s' temps out temps')
    (inside : temps' <+: types) (enough : n ≤ steps) (holds : Holds c s.names callers m)
    (ended : Eval.block c n stmts m = .ok flow m')
    (allowed : Allows itself out (Stmt.allNodes stmts)) :
    Follows itself m (enclosed (execStmts c steps types out)) (· = flow) m' := by
  cases n with
  | zero => cases ended
  | succ n =>
    obtain ⟨flow₁, m₁, ran, later⟩ := bind_ok (x := Eval.stmts c n stmts) ended
    cases later
    exact (h.follows inside (Nat.le_of_lt enough) holds ran allowed).enclosed

theorem faithful_block {stmts : List GridKernel.Stmt} (inner : FaithfulBody c s.push stmts s') :
    FaithfulStmt c s (.block stmts) s := by
  intro temps
  obtain ⟨out, temps', emits⟩ := inner temps
  refine ⟨[.block out], temps', emit_bind emits.translation, emits.grows, ?_⟩
  intro types n steps callers m flow m' itself inside enough holds ended allowed
  have allowed' : Allows itself out (Stmt.allNodes stmts) :=
    allowed.sub (by simp [Stmt.anyDeclares, Stmt.declares]) fun _ => id
  cases n with
  | zero => cases ended
  | succ n =>
    rw [execStmts_single]
    exact emits.block inside (Nat.le_of_lt enough) holds ended allowed'

theorem faithful_branch (checked : check c.descriptor = .ok ())
    (typed : typeOf c.descriptor s e = .ok (some .boolean))
    (first : FaithfulBody c s.push thenBody s₁) (second : FaithfulBody c s.push elseBody s₂) :
    FaithfulStmt c s (.branch e thenBody elseBody) s := by
  intro temps
  obtain ⟨em, temps₁, rendered⟩ := faithful checked e typed temps
  obtain ⟨out, temps₂, emits⟩ := first temps₁
  obtain ⟨out', temps₃, translated'⟩ := second temps₂
  refine ⟨em.lifted ++ [.branch em.value out out'], temps₃,
    (emit_bind rendered.translation).trans
      ((emit_bind emits.translation).trans (emit_bind translated'.translation)),
    rendered.grows.trans (emits.grows.trans translated'.grows), ?_⟩
  intro types n steps callers m flow m' itself inside enough holds ended allowed
  have allowed₁ : Allows itself out (Stmt.allNodes thenBody) :=
    allowed.sub (by simp +contextual [Stmt.anyDeclares, Stmt.declares]) fun _ found =>
      mem_append_left _ (mem_append_right _ found)
  have allowed₂ : Allows itself out' (Stmt.allNodes elseBody) :=
    allowed.sub (by simp +contextual [Stmt.anyDeclares, Stmt.declares]) fun _ found =>
      mem_append_right _ found
  cases n with
  | zero => cases ended
  | succ n =>
    obtain ⟨v, m₁, evaluated, later⟩ := bind_ok ended
    obtain ⟨b, m₂, decided, later⟩ := bind_ok later
    obtain ⟨rfl, rfl⟩ := boolean_of_truth decided
    have enough : n ≤ steps := Nat.le_of_lt enough
    have holds₁ := (((Eval.sound checked n).value typed holds).of_ok evaluated).2
    have runs := rendered.runs ((emits.grows.trans translated'.grows).trans inside) enough
      holds evaluated
    have clash (nodes : SelfIndexed e.nodes) : itself := allowed.clash
      (nodes.mono fun _ found => mem_append_left _ (mem_append_left _ found))
    refine Runs.stmt runs clash (by rw [execStmt, test, bind_assoc]) ?_
    rintro ⟨_, acc⟩ rfl
    refine (truth_follows b).eq_andThen ?_
    cases b with
    | true => exact emits.block (translated'.grows.trans inside) enough holds₁ later allowed₁
    | false => exact translated'.block inside enough holds₁ later allowed₂

/-! ### Leaving -/

/-- A statement that only says how it ends. -/
theorem faithful_leave
    (translation : ∀ temps, stmt c.descriptor s st temps = .ok (([st'], s), temps))
    (ends : ∀ {n m flow' m'}, Eval.stmt c n st m = .ok flow' m' → flow' = flow ∧ m' = m)
    (ends' : ∀ steps types, execStmt c steps types st' = pure flow) : FaithfulStmt c s st s := by
  intro temps
  refine ⟨[st'], temps, translation temps, prefix_rfl, ?_⟩
  intro types n steps callers m flow' m' itself inside enough holds ended allowed
  obtain ⟨rfl, rfl⟩ := ends ended
  rw [execStmts_single, ends']
  exact .ret rfl

theorem faithful_break (s) : FaithfulStmt c s .breakLoop s := by
  refine faithful_leave (fun _ => rfl) ?_ fun _ _ => rfl
  intro n m flow m' ended
  cases n <;> cases ended
  exact ⟨rfl, rfl⟩

theorem faithful_continue (s) : FaithfulStmt c s .continueLoop s := by
  refine faithful_leave (fun _ => rfl) ?_ fun _ _ => rfl
  intro n m flow m' ended
  cases n <;> cases ended
  exact ⟨rfl, rfl⟩

theorem faithful_return_void (s) : FaithfulStmt c s (.ret none) s := by
  refine faithful_leave (fun _ => rfl) ?_ fun _ _ => rfl
  intro n m flow m' ended
  match n with
  | 0 | 1 => cases ended
  | n + 2 =>
    cases ended
    exact ⟨rfl, rfl⟩

theorem faithful_return (checked : check c.descriptor = .ok ())
    (typed : typeOf c.descriptor s e = .ok (some t)) : FaithfulStmt c s (.ret (some e)) s := by
  intro temps
  obtain ⟨em, temps', rendered⟩ := faithful checked e typed temps
  refine ⟨em.lifted ++ [.ret (some em.value)], temps', emit_bind rendered.translation,
    rendered.grows, ?_⟩
  intro types n steps callers m flow m' itself inside enough holds ended allowed
  cases n with
  | zero => cases ended
  | succ n =>
    obtain ⟨o, m₁, optional, finished⟩ := bind_ok ended
    cases finished
    cases n with
    | zero => cases optional
    | succ n =>
      obtain ⟨v, m₂, evaluated, finished⟩ := bind_ok optional
      cases finished
      refine Runs.stmt (rendered.runs inside (by omega) holds evaluated) allowed.clash
        (by rw [execStmt]) ?_
      rintro ⟨_, acc⟩ rfl
      exact .ret rfl

end

end GridKernel.Target
