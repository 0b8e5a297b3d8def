import GridKernel.Proofs.Target.Runs
import GridKernel.Proofs.Target.Unset

/-!
# Runs that follow a machine

`Follows` states what a translated statement does: from one machine it comes to another, whatever
the schedule and the temporaries are. What can come between is a conflict, as for expressions, or
the read of a local that holds no value.
-/

namespace GridKernel.Target

open Eval (Context Machine Flow)

/-- From a machine the computation comes to another one with such a result, or to a conflict that
`itself` allows, or to the read of a local that holds no value. -/
def Follows {α : Type} (itself : Prop) (m : Machine) (x : Exec α) (good : α → Prop)
    (m' : Machine) : Prop :=
  ∀ s : State, s.machine = m → Ensures x s (fun a t => good a ∧ t.machine = m')
    fun fault _ => fault = .conflict ∧ itself ∨ fault = .indeterminate

section

variable {α β : Type}

theorem onMachine_ends (h : y s.machine = .ok a m') :
    Ensures (onMachine y) s (fun b t => b = a ∧ t.machine = m') stopped := by
  have ended : onMachine y s = .ok a { s with machine := m' } := by
    unfold onMachine
    rw [h]
  exact Ensures.ended ended ⟨rfl, rfl⟩

namespace Follows

theorem ret (h : good a) : Follows itself m (pure a) good m :=
  fun _ machine => ⟨h, machine⟩

theorem andThen (h : Follows itself m x good m₁)
    (next : ∀ a, good a → Follows itself m₁ (k a) good' m') :
    Follows itself m (x >>= k) good' m' := fun s machine =>
  (h s machine).andThen fun a t ended => next a ended.1 t ended.2

theorem eq_andThen (h : Follows itself m x (· = a) m₁) (next : Follows itself m₁ (k a) good' m') :
    Follows itself m (x >>= k) good' m' :=
  h.andThen fun _ same => same ▸ next

/-- Leaving a block drops what was declared in it. -/
theorem enclosed (h : Follows itself m x good m₁) :
    Follows itself m (Target.enclosed x) good
      { m₁ with locals := m₁.locals.drop (m₁.locals.length - m.locals.length) } := by
  intro s machine
  refine Ensures.fromState ((h s machine).andThen ?_)
  rintro a t ⟨result, rfl⟩
  have dropped : Eval.truncate s.machine.locals.length t.machine = .ok () _ := rfl
  refine Ensures.andThen (onMachine_ends dropped) ?_
  rintro _ u ⟨-, machine'⟩
  refine Ensures.changed ⟨result, ?_⟩
  rw [← machine]
  exact machine'

end Follows

theorem onMachine_follows (h : y m = .ok a m') : Follows itself m (onMachine y) (· = a) m' := by
  rintro s rfl
  exact onMachine_ends h

/-- What is known of runs in which every local holds a value. -/
theorem Tame.follows (tame : Tame x) (h : ∀ T, ∃ T', Takes (At m T) x good (At m' T') clash)
    (allowed : clash → itself) : Follows itself m x good m' := by
  intro s machine
  obtain ⟨T', taken⟩ := h s.temps
  have clean := taken s.allSet ⟨machine, rfl, rfl⟩
  have lifts := tame s
  unfold Ensures at clean ⊢
  generalize x s = r at lifts ⊢
  generalize x s.allSet = r' at lifts clean
  cases lifts with
  | ok a t => exact ⟨clean.1, clean.2.1⟩
  | error reason t => exact .inl ⟨clean.1, allowed clean.2⟩
  | early _ t => exact .inr rfl

end

/-! ## Expressions in statements -/

section

/-- An expression with a value has the same effects when the value is not used. -/
theorem discard_ensures (h : Ensures (exec c steps types e) s done stopped)
    (defined : ∀ t, ¬stopped .undefined t) :
    Ensures (discard c steps types e) s (fun _ t => ∃ r, done r t) stopped := by
  unfold discard
  split
  · rename_i method args
    rw [exec_call (by simp)] at h
    refine h.parts.andThen fun r t h => ?_
    refine h.parts.parts.andThen fun m u h => ?_
    refine h.parts.andThen fun result u h => Ensures.ret ?_
    cases result with
    | none => exact absurd h (defined u)
    | some v => exact ⟨_, h⟩
  · exact h.andThen fun r t holds => Ensures.ret ⟨r, holds⟩

/-- Expressions that run first, as statements. -/
theorem lifted_ensures (defined : ∀ t, ¬stopped .undefined t)
    (h : Ensures (execInOrder c steps types pre >>= fun _ => execStmts c steps types rest) s done
      stopped) :
    Ensures (execStmts c steps types (pre.map .expr ++ rest)) s done stopped := by
  induction pre generalizing s with
  | nil => exact h
  | cons e others ih =>
    simp only [execInOrder, bind_assoc, pure_bind] at h
    simp only [List.map_cons, List.cons_append, execStmts, execStmt, bind_assoc, pure_bind]
    refine (discard_ensures h.parts defined).andThen ?_
    rintro _ t ⟨r, later⟩
    exact ih later

variable {em : Emitted}

theorem Yields.follows (h : ∀ T, Yields c steps types e nodes lo hi m T v m')
    (allowed : SelfIndexed nodes → itself) :
    Follows itself m (exec c steps types e) (·.1 = v) m' := by
  refine (exec_tame c steps types e).follows (fun T => ?_) allowed
  obtain ⟨T', -, taken⟩ := h T
  exact ⟨T', taken.mono fun r busy => busy.value⟩

theorem Runs.follows (h : ∀ T, Runs c steps types em nodes lo hi m T v m')
    (allowed : SelfIndexed nodes → itself) :
    Follows itself m
      (execInOrder c steps types em.pre >>= fun _ => exec c steps types em.value) (·.1 = v) m' := by
  have tame := (execInOrder_tame c steps types em.pre).andThen fun _ =>
    exec_tame c steps types em.value
  refine tame.follows (fun T => ?_) allowed
  obtain ⟨mid, T₁, -, ⟨before, -⟩, yields⟩ := h T
  obtain ⟨T₂, -, taken⟩ := yields T₁ (.refl hi T₁)
  exact ⟨T₂, before.andThen fun _ _ => taken.mono fun r busy => busy.value⟩

theorem execStmts_single (st) : execStmts c steps types [st] = execStmt c steps types st := by
  simp only [execStmts]
  refine (bind_congr fun flow => ?_).trans (bind_pure _)
  cases flow <;> rfl

/-- Statements that start with expressions which run first. -/
theorem Follows.lifted
    (h : Follows itself m (execInOrder c steps types pre >>= fun _ => execStmts c steps types rest)
      good m') :
    Follows itself m (execStmts c steps types (pre.map .expr ++ rest)) good m' :=
  fun s machine => lifted_ensures (fun _ early => by simp at early) (h s machine)

/-- A statement that goes on with the value of an expression. -/
theorem Runs.stmt (h : ∀ T, Runs c steps types em nodes lo hi m T v m')
    (allowed : SelfIndexed nodes → itself)
    (starts : execStmt c steps types st = exec c steps types em.value >>= k)
    (next : ∀ r, r.1 = v → Follows itself m' (k r) good m'') :
    Follows itself m (execStmts c steps types (em.lifted ++ [st])) good m'' := by
  refine Follows.lifted ?_
  rw [execStmts_single, starts, ← bind_assoc]
  exact (Runs.follows h allowed).andThen next

/-- An expression that is evaluated for its effects. -/
theorem Runs.effect (h : ∀ T, Runs c steps types em nodes lo hi m T v m')
    (allowed : SelfIndexed nodes → itself) :
    Follows itself m (execStmts c steps types (em.lifted ++ [.expr em.value])) (· = .normal)
      m' := by
  have all : em.lifted ++ [.expr em.value] = (em.pre ++ [em.value]).map Stmt.expr ++ [] := by
    simp [Emitted.lifted]
  rw [all]
  refine Follows.lifted ?_
  simp only [execInOrder_eq_append, execInOrder, execStmts, bind_assoc, pure_bind]
  rw [← bind_assoc]
  exact (Runs.follows h allowed).andThen fun r _ => .ret rfl

theorem exec_inline (em : Emitted) :
    exec c steps types em.inline = exec c steps types em.inlineOperand := by
  obtain ⟨pre, value, simple⟩ := em
  cases pre with
  | nil => exact (exec_operand ⟨[], value, simple⟩).symm
  | cons e rest => rfl

theorem Runs.inline (h : ∀ T, Runs c steps types em nodes lo hi m T v m')
    (allowed : SelfIndexed nodes → itself) :
    Follows itself m (exec c steps types em.inline) (·.1 = v) m' := by
  rw [exec_inline]
  exact Yields.follows (fun T => (h T).inlined) allowed

theorem truth_follows (b) : Follows itself m (onMachine (Eval.truth (.boolean b))) (· = b) m :=
  onMachine_follows rfl

theorem test_follows (h : Follows itself m (exec c steps types e) (·.1 = .boolean b) m') :
    Follows itself m (test c steps types e) (· = b) m' := by
  refine h.andThen ?_
  rintro ⟨_, acc⟩ rfl
  exact truth_follows b

end

end GridKernel.Target
