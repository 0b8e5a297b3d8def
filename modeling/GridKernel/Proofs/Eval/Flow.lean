import GridKernel.Proofs.Eval.Ensures
import GridKernel.Typing.Method

/-!
# How statements end

The checker looks at the syntax of a body to see whether a loop can be left by a `break` and
whether a method can run off its end. Evaluation agrees: a statement that does not break does not
end as `broke`, and one that returns never ends as `normal`, however long it runs.
-/

namespace GridKernel.Eval

open Typing

/-- If the computation ends, its flow satisfies `p`. -/
def Ends (p : Flow → Prop) (x : Comp Flow) : Prop :=
  ∀ m, Ensures x m (fun flow _ => p flow) fun _ _ => True

namespace Ends

variable {α : Type}

theorem outOfSteps : Ends p exhausted := fun _ => trivial

theorem ret (h : p flow) : Ends p (pure flow) := fun _ => h

/-- What comes first does not matter. -/
theorem after (h : ∀ a, Ends p (f a)) : Ends p (x >>= f) := by
  intro m
  exact (Ensures.anything x m).andThen fun a m' _ => h a m'

/-- A computation that goes on with the flow of another. -/
theorem andThen (first : Ends q x) (h : ∀ flow, q flow → Ends p (f flow)) : Ends p (x >>= f) :=
  fun m => (first m).andThen fun flow m' found => h flow found m'

theorem enclosed (h : Ends p x) : Ends p (Eval.enclosed x) := fun m => Ensures.enclosed (h m)

theorem ite {b : Bool} {x y : Comp Flow} (yes : Ends p x) (no : Ends p y) :
    Ends p (if b then x else y) := by
  cases b
  · exact no
  · exact yes

end Ends

variable {body : List Stmt}

/-- The only loop that returns is one whose condition is the literal `true`. -/
theorem returns_whileLoop {cond : Expr} (h : returns (.whileLoop cond body) = true) :
    cond = .literal (.boolean true) ∧ anyBreaks body = false := by
  cases cond with
  | literal v =>
    cases v with
    | boolean b =>
      cases b with
      | true => exact ⟨rfl, Bool.not_eq_true' _ ▸ h⟩
      | false => cases h
    | _ => cases h
  | _ => cases h

/-- What the syntax of statements tells about their flow, for evaluations of `n` steps. -/
structure Predicts (c : Context) (n : Nat) : Prop where
  stmt_breaks : ∀ {s}, breaks s = false → Ends (· ≠ .broke) (stmt c n s)
  stmts_breaks : ∀ {body}, anyBreaks body = false → Ends (· ≠ .broke) (stmts c n body)
  block_breaks : ∀ {body}, anyBreaks body = false → Ends (· ≠ .broke) (block c n body)
  while_breaks : ∀ cond body, Ends (· ≠ .broke) (whileLoop c n cond body)
  do_breaks : ∀ body cond, Ends (· ≠ .broke) (doWhile c n body cond)
  for_breaks : ∀ cond update body, Ends (· ≠ .broke) (forLoop c n cond update body)
  stmt_returns : ∀ {s}, returns s = true → Ends (· ≠ .normal) (stmt c n s)
  stmts_returns : ∀ {body}, anyReturns body = true → Ends (· ≠ .normal) (stmts c n body)
  block_returns : ∀ {body}, anyReturns body = true → Ends (· ≠ .normal) (block c n body)
  forever : ∀ {body}, anyBreaks body = false →
    Ends (· ≠ .normal) (whileLoop c n (.literal (.boolean true)) body)

namespace Predicts

section

variable (h : Predicts c n)
include h

theorem stmt_breaks_succ (stays : breaks s = false) : Ends (· ≠ .broke) (stmt c (n + 1) s) := by
  cases s with
  | declare name type init =>
    cases init with
    | none => exact .after fun _ => .ret nofun
    | some e => exact .after fun _ => .after fun _ => .ret nofun
  | expr e => cases e <;> exact .after fun _ => .ret nofun
  | branch cond thenBody elseBody =>
    obtain ⟨first, second⟩ := Bool.or_eq_false_iff.mp stays
    exact .after fun _ => .after fun _ => .ite (h.block_breaks first) (h.block_breaks second)
  | whileLoop cond body => exact h.while_breaks cond body
  | doWhile body cond => exact h.do_breaks body cond
  | forLoop init cond update body =>
    exact .enclosed (.after fun _ => h.for_breaks cond update body)
  | breakLoop => cases stays
  | continueLoop => exact .ret nofun
  | ret value => exact .after fun _ => .ret nofun
  | block body => exact h.block_breaks stays

theorem stmts_breaks_succ (stays : anyBreaks body = false) :
    Ends (· ≠ .broke) (stmts c (n + 1) body) := by
  cases body with
  | nil => exact .ret nofun
  | cons s rest =>
    obtain ⟨first, others⟩ := Bool.or_eq_false_iff.mp stays
    refine .andThen (h.stmt_breaks first) fun flow stays => ?_
    cases flow with
    | normal => exact h.stmts_breaks others
    | broke => exact absurd rfl stays
    | continued | returned v => exact .ret nofun

theorem while_breaks_succ (cond body) : Ends (· ≠ .broke) (whileLoop c (n + 1) cond body) := by
  refine .after fun _ => .after fun _ => .ite (.after fun flow => ?_) (.ret nofun)
  cases flow with
  | normal | continued => exact h.while_breaks cond body
  | broke | returned => exact .ret nofun

theorem do_breaks_succ (body cond) : Ends (· ≠ .broke) (doWhile c (n + 1) body cond) := by
  refine .after fun flow => ?_
  cases flow with
  | normal | continued =>
    exact .after fun _ => .after fun _ => .ite (h.do_breaks body cond) (.ret nofun)
  | broke | returned => exact .ret nofun

theorem for_breaks_succ (cond update body) :
    Ends (· ≠ .broke) (forLoop c (n + 1) cond update body) := by
  have round : Ends (· ≠ .broke) (block c n body >>=
      afterRound (evalAll c n update >>= fun _ => forLoop c n cond update body)) := by
    refine .after fun flow => ?_
    cases flow with
    | normal | continued => exact .after fun _ => h.for_breaks cond update body
    | broke | returned => exact .ret nofun
  cases cond with
  | none => exact round
  | some e => exact .after fun _ => .after fun _ => .ite round (.ret nofun)

theorem stmt_returns_succ (leaves : returns s = true) : Ends (· ≠ .normal) (stmt c (n + 1) s) := by
  cases s with
  | branch cond thenBody elseBody =>
    obtain ⟨first, second⟩ := Bool.and_eq_true_iff.mp leaves
    exact .after fun _ => .after fun _ => .ite (h.block_returns first) (h.block_returns second)
  | whileLoop cond body =>
    obtain ⟨rfl, stays⟩ := returns_whileLoop leaves
    exact h.forever stays
  | ret value => exact .after fun _ => .ret nofun
  | block body => exact h.block_returns leaves
  | _ => cases leaves

theorem stmts_returns_succ (leaves : anyReturns body = true) :
    Ends (· ≠ .normal) (stmts c (n + 1) body) := by
  cases body with
  | nil => cases leaves
  | cons s rest =>
    cases first : returns s with
    | true =>
      refine .andThen (h.stmt_returns first) fun flow leaves => ?_
      cases flow with
      | normal => exact absurd rfl leaves
      | broke | continued | returned => exact .ret nofun
    | false =>
      have others : anyReturns rest = true := by simpa [anyReturns, first] using leaves
      refine .after fun flow => ?_
      cases flow with
      | normal => exact h.stmts_returns others
      | broke | continued | returned => exact .ret nofun

theorem forever_succ (stays : anyBreaks body = false) :
    Ends (· ≠ .normal) (whileLoop c (n + 1) (.literal (.boolean true)) body) := by
  have round : Ends (· ≠ .normal)
      (block c n body >>= afterRound (whileLoop c n (.literal (.boolean true)) body)) := by
    refine .andThen (h.block_breaks stays) fun flow stays' => ?_
    cases flow with
    | normal | continued => exact h.forever stays
    | broke => exact absurd rfl stays'
    | returned v => exact .ret nofun
  cases n with
  | zero => exact fun _ => trivial
  | succ n => exact round

end

end Predicts

/-- The initializers of a `for` end normally. -/
theorem initializer_ends (h : isInitializer s = true) : Ends (· = .normal) (stmt c n s) := by
  cases n with
  | zero => exact .outOfSteps
  | succ n =>
    cases s with
    | declare name type init =>
      cases init with
      | none => exact .after fun _ => .ret rfl
      | some e => exact .after fun _ => .after fun _ => .ret rfl
    | expr e => cases e <;> exact .after fun _ => .ret rfl
    | _ => cases h

theorem predicts (c n) : Predicts c n := by
  induction n with
  | zero =>
    constructor <;> intros <;> exact Ends.outOfSteps
  | succ n h =>
    exact {
      stmt_breaks := h.stmt_breaks_succ
      stmts_breaks := h.stmts_breaks_succ
      block_breaks := fun stays => .enclosed (h.stmts_breaks stays)
      while_breaks := h.while_breaks_succ
      do_breaks := h.do_breaks_succ
      for_breaks := h.for_breaks_succ
      stmt_returns := h.stmt_returns_succ
      stmts_returns := h.stmts_returns_succ
      block_returns := fun leaves => .enclosed (h.stmts_returns leaves)
      forever := h.forever_succ }

end GridKernel.Eval
