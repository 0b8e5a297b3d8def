import GridKernel.Proofs.Eval.Plain
import GridKernel.Proofs.Lang.Parts

/-!
# Evaluations that end

Without loops only the nesting of the program text and the calls use up steps. So a body ends if the
methods that it calls do, and the steps that it needs follow from its size.
-/

namespace GridKernel

/-- Every method that these expressions call satisfies `may`. -/
def CallsOnly (may : String → Prop) (nodes : List Expr) : Prop :=
  ∀ e ∈ nodes, ∀ name, e.callee? = some name → may name

namespace CallsOnly

theorem mono (h : CallsOnly may nodes) (sub : ∀ e ∈ nodes', e ∈ nodes) : CallsOnly may nodes' :=
  fun e found => h e (sub e found)

theorem append (h : CallsOnly may (nodes ++ nodes')) : CallsOnly may nodes ∧ CallsOnly may nodes' :=
  ⟨h.mono fun _ => List.mem_append_left _, h.mono fun _ => List.mem_append_right _⟩

theorem tail (h : CallsOnly may (e :: nodes)) : CallsOnly may nodes :=
  h.mono fun _ => List.mem_cons_of_mem e

theorem callee (h : CallsOnly may (Expr.call name args).nodes) : may name := by
  rw [Expr.nodes] at h
  exact h _ List.mem_cons_self name rfl

end CallsOnly

def Stmt.isLoop : Stmt → Bool
  | .whileLoop _ _ | .doWhile _ _ | .forLoop _ _ _ _ => true
  | _ => false

/-- None of these statements is a loop. -/
def Loopless (stmts : List Stmt) : Prop := ∀ s ∈ stmts, s.isLoop = false

namespace Loopless

variable {s : Stmt}

theorem append (h : Loopless (first ++ second)) : Loopless first ∧ Loopless second :=
  ⟨fun s member => h s (List.mem_append_left _ member),
    fun s member => h s (List.mem_append_right _ member)⟩

theorem head (h : Loopless (s :: first)) : s.isLoop = false := h s List.mem_cons_self

theorem tail (h : Loopless (s :: first)) : Loopless first :=
  fun t member => h t (List.mem_cons_of_mem s member)

end Loopless

namespace Eval

/-- However the computation ends, it is not for want of steps. -/
def Finishes {α : Type} (x : Comp α) : Prop :=
  ∀ m, Ensures x m (fun _ _ => True) fun stop _ => stop ≠ .exhausted

theorem Reads.finishes (h : Reads x) : Finishes x :=
  fun m => (h m).imp (fun _ _ _ => trivial) fun _ _ early => early.1

namespace Finishes

theorem andThen (first : Finishes x) (next : ∀ a, Finishes (f a)) : Finishes (x >>= f) :=
  fun m => (first m).andThen fun a m' _ => next a m'

theorem decides (h : Finishes x) (yes : Finishes (f true)) (no : Finishes (f false)) :
    Finishes (x >>= fun v => truth v >>= f) := by
  refine h.andThen fun v => (Reads.tests v).finishes.andThen fun b => ?_
  cases b with
  | true => exact yes
  | false => exact no

theorem changes (f : Machine → Machine) : Finishes (modify f : Comp Unit) := fun _ => trivial

theorem writes_location (c : Context) (v : Value) (l : Location) :
    Finishes (writeLocation c v l) := by
  cases l with
  | var name =>
    refine andThen Reads.looks.finishes fun m => ?_
    split
    · exact changes _
    · exact (Reads.stops _).finishes
  | field i name => exact changes _
  | element array i =>
    exact fun m => (writeElement_stores c array m i v).imp (fun _ _ _ => trivial) fun _ _ stop => stop.1

theorem performs (c : Context) (op : AtomicOp) (name : String) (index : Option Value)
    (operands : List Int64) : Finishes (performAtomic c op name index operands) :=
  fun m => (performAtomic_replaces c name m op index operands).imp (fun _ _ _ => trivial)
    fun _ _ stop => stop.1

end Finishes

/-- Steps that are twice the size of the text, beside those that a callee needs, are enough. -/
structure Halting (c : Context) (budget : Nat) (may : String → Prop) (n : Nat) : Prop where
  expr : ∀ {e}, CallsOnly may e.nodes → 2 * sizeOf e + budget < n → Finishes (eval c n e)
  place : ∀ {p : Place Expr}, CallsOnly may p.nodes → 2 * sizeOf p + budget < n →
    Finishes (resolve c n p)
  optional : ∀ {o}, CallsOnly may (Expr.optionNodes o) → 2 * sizeOf o + budget < n →
    Finishes (evalOption c n o)
  values : ∀ {es}, CallsOnly may (Expr.listNodes es) → 2 * sizeOf es + budget < n →
    Finishes (evalAll c n es)
  operands : ∀ {op es}, CallsOnly may (Expr.listNodes es) → 2 * sizeOf es + budget < n →
    Finishes (evalOperands c n op es)
  calls : ∀ {name es}, may name → CallsOnly may (Expr.listNodes es) →
    2 * sizeOf es + budget + 1 < n → Finishes (call c n name es)
  blocks : ∀ {ss}, CallsOnly may (Stmt.allNodes ss) → Loopless (Stmt.flattenAll ss) →
    2 * sizeOf ss + budget + 1 < n → Finishes (block c n ss)
  body : ∀ {ss}, CallsOnly may (Stmt.allNodes ss) → Loopless (Stmt.flattenAll ss) →
    2 * sizeOf ss + budget < n → Finishes (stmts c n ss)
  statement : ∀ {s : Stmt}, CallsOnly may s.nodes → Loopless s.flatten →
    2 * sizeOf s + budget < n → Finishes (stmt c n s)

namespace Halting

open Finishes Reads

theorem expr_succ (h : Halting c budget may n) (only : CallsOnly may e.nodes)
    (enough : 2 * sizeOf e + budget < n + 1) : Finishes (eval c (n + 1) e) := by
  cases e with
  | literal v => exact (ret v).finishes
  | var name => exact (reads_local name).finishes
  | field name => exact (reads_scalar c name).finishes
  | length array => exact (reads_length c array).finishes
  | element array index =>
    rw [Expr.element.sizeOf_spec] at enough
    exact andThen (h.expr only.tail (by omega)) fun v => andThen (measures c array).finishes fun size =>
      andThen (checks array v size).finishes fun i => (reads_element c array i).finishes
  | binary op lhs rhs =>
    rw [Expr.binary.sizeOf_spec] at enough
    have left := h.expr only.tail.append.1 (by omega)
    have right := h.expr only.tail.append.2 (by omega)
    cases op
    case and =>
      exact left.decides (right.decides (ret _).finishes (ret _).finishes) (ret _).finishes
    case or =>
      exact left.decides (ret _).finishes (right.decides (ret _).finishes (ret _).finishes)
    all_goals exact andThen left fun _ => andThen right fun _ => (lifts _).finishes
  | unary op operand =>
    rw [Expr.unary.sizeOf_spec] at enough
    exact andThen (h.expr only.tail (by omega)) fun _ => (lifts _).finishes
  | conditional cond thenValue elseValue =>
    rw [Expr.conditional.sizeOf_spec] at enough
    obtain ⟨parts, last⟩ := only.tail.append
    exact (h.expr parts.append.1 (by omega)).decides (h.expr parts.append.2 (by omega)) (h.expr last
      (by omega))
  | cast type value implicit =>
    rw [Expr.cast.sizeOf_spec] at enough
    exact andThen (h.expr only.tail (by omega)) fun _ => (ret _).finishes
  | assign target op value =>
    rw [Expr.assign.sizeOf_spec] at enough
    have place := h.place only.tail.append.1 (by omega)
    have value := h.expr only.tail.append.2 (by omega)
    cases op with
    | none =>
      exact andThen place fun t => andThen value fun v =>
        andThen (writes_location c v t) fun _ => (ret v).finishes
    | some op =>
      exact andThen place fun t => andThen (reads_location c t).finishes fun old =>
        andThen value fun v => andThen (lifts _).finishes fun _ =>
          andThen (writes_location c _ t) fun _ => (ret _).finishes
  | step target op before =>
    rw [Expr.step.sizeOf_spec] at enough
    exact andThen (h.place only.tail (by omega)) fun t => andThen (reads_location c t).finishes
      fun old => andThen (writes_location c _ t) fun _ => (ret _).finishes
  | call name args =>
    have may := only.callee
    rw [Expr.call.sizeOf_spec] at enough
    refine andThen (h.calls may only.tail (by omega)) fun result => ?_
    cases result with
    | none => exact (stops _).finishes
    | some v => exact (ret v).finishes
  | atomic op slot args =>
    obtain ⟨field, index⟩ := slot
    rw [Expr.atomic.sizeOf_spec, SlotRef.mk.sizeOf_spec] at enough
    have place : Finishes (evalOption c n index) := h.optional only.tail.append.1 (by omega)
    exact andThen place fun i => andThen (h.operands only.tail.append.2 (by omega)) fun operands =>
      performs c op field i operands
  | builtin func args =>
    rw [Expr.builtin.sizeOf_spec] at enough
    exact andThen (h.values only.tail (by omega)) fun values => (builtins c func values).finishes

theorem statement_succ (h : Halting c budget may n) (only : CallsOnly may s.nodes)
    (loopless : Loopless s.flatten) (enough : 2 * sizeOf s + budget < n + 1) :
    Finishes (stmt c (n + 1) s) := by
  cases s with
  | declare name type init =>
    cases init with
    | none => exact andThen (changes _) fun _ => (ret _).finishes
    | some e =>
      rw [Stmt.declare.sizeOf_spec, Option.some.sizeOf_spec] at enough
      exact andThen (h.expr only (by omega)) fun v => andThen (changes _) fun _ =>
        (ret _).finishes
  | expr e =>
    rw [Stmt.expr.sizeOf_spec] at enough
    cases e with
    | call name args =>
      have may := only.callee
      rw [Expr.call.sizeOf_spec] at enough
      exact andThen (h.calls may only.tail (by omega)) fun _ => (ret _).finishes
    | _ => exact andThen (h.expr only (by omega)) fun _ => (ret _).finishes
  | branch cond thenBody elseBody =>
    rw [Stmt.branch.sizeOf_spec] at enough
    obtain ⟨parts, last⟩ := only.append
    exact (h.expr parts.append.1 (by omega)).decides (h.blocks parts.append.2 loopless.tail.append.1
      (by omega)) (h.blocks last loopless.tail.append.2 (by omega))
  | whileLoop cond body | doWhile body cond | forLoop init cond update body =>
    cases loopless.head
  | breakLoop | continueLoop => exact (ret _).finishes
  | ret value =>
    rw [Stmt.ret.sizeOf_spec] at enough
    exact andThen (h.optional only (by omega)) fun _ => (ret _).finishes
  | block body =>
    rw [Stmt.block.sizeOf_spec] at enough
    exact h.blocks only loopless.tail (by omega)

end Halting

/-- If every method that may be called ends within the budget, an evaluation without loops ends. -/
theorem halting
    (callee : ∀ name, may name → ∀ m, c.descriptor.method? name = some m → ∀ n args, budget ≤ n →
      Finishes (invoke c n m args))
    (n) : Halting c budget may n := by
  induction n with
  | zero => constructor <;> intros <;> omega
  | succ n h =>
    exact {
      expr := h.expr_succ
      place := fun {p} only enough => by
        cases p with
        | var name => exact (Reads.ret _).finishes
        | field name => exact (Reads.andThen (.finds c name) fun _ => .ret _).finishes
        | element array index =>
          rw [Place.element.sizeOf_spec] at enough
          exact .andThen (h.expr only (by omega)) fun v =>
            .andThen (Reads.measures c array).finishes fun size =>
              .andThen (Reads.checks array v size).finishes fun _ => (Reads.ret _).finishes
      optional := fun {o} only enough => by
        cases o with
        | none => exact (Reads.ret _).finishes
        | some e =>
          rw [Option.some.sizeOf_spec] at enough
          exact .andThen (h.expr only (by omega)) fun _ => (Reads.ret _).finishes
      values := fun {es} only enough => by
        cases es with
        | nil => exact (Reads.ret _).finishes
        | cons e rest =>
          rw [List.cons.sizeOf_spec] at enough
          exact .andThen (h.expr only.append.1 (by omega)) fun _ =>
            .andThen (h.values only.append.2 (by omega)) fun _ => (Reads.ret _).finishes
      operands := fun {op es} only enough => by
        cases es with
        | nil => exact (Reads.ret _).finishes
        | cons e rest =>
          rw [List.cons.sizeOf_spec] at enough
          exact .andThen (h.expr only.append.1 (by omega)) fun v =>
            .andThen (Reads.operands op v).finishes fun _ =>
              .andThen (h.operands only.append.2 (by omega)) fun _ => (Reads.ret _).finishes
      calls := fun {name es} called only enough => by
        unfold call
        cases found : c.descriptor.method? name with
        | none => exact (Reads.stops _).finishes
        | some m =>
          exact .andThen (h.values only (by omega)) fun args =>
            callee name called m found n args (by omega)
      blocks := fun only loopless enough =>
        .andThen (fun _ => trivial) fun _ => .andThen (h.body only loopless (by omega)) fun flow =>
          .andThen (.changes _) fun _ => (Reads.ret flow).finishes
      body := fun {ss} only loopless enough => by
        cases ss with
        | nil => exact (Reads.ret _).finishes
        | cons s rest =>
          rw [List.cons.sizeOf_spec] at enough
          refine .andThen (h.statement only.append.1 loopless.append.1 (by omega)) fun flow => ?_
          cases flow with
          | normal => exact h.body only.append.2 loopless.append.2 (by omega)
          | broke | continued | returned => exact (Reads.ret _).finishes
      statement := h.statement_succ }

theorem invoke_finishes (body : ∀ n, budget < n → Finishes (block c n m.body))
    (enough : budget + 1 < n) (args) : Finishes (invoke c n m args) := by
  cases n with
  | zero => omega
  | succ n =>
    have framed : Finishes (framed (frameOf m args) (block c n m.body)) :=
      .andThen (fun _ => trivial) fun _ => .andThen (.changes _) fun _ =>
        .andThen (body n (by omega)) fun flow => .andThen (fun _ => trivial) fun _ =>
          (Reads.ret flow).finishes
    refine .andThen framed fun flow => ?_
    cases flow with
    | returned v => exact (Reads.ret v).finishes
    | normal | broke | continued => exact (Reads.ret _).finishes

end Eval

end GridKernel
