import GridKernel.Proofs.Target.Loops

/-!
# Translated methods

The statements of a checked method are put together: the method has a translation, and running it
follows the method. What can come between is a conflict, if an access to an element has an index
that assigns to the same array, or the read of a local without a value, if some local is declared
without an initializer.
-/

namespace GridKernel.Target

open List Typing
open Eval (Context Machine Holds Flow)
open Typing (check checkStmt checkBody checkInits)

theorem checkBody_of_checkInits (h : checkInits d method inLoop p s init = .ok s') :
    checkBody d method inLoop p s init = .ok s' ∧
      ∀ st ∈ init, Typing.isInitializer st = true := by
  induction init generalizing s p with
  | nil => exact ⟨h, forall_mem_nil _⟩
  | cons st rest ih =>
    obtain ⟨initializer, h⟩ := Outcome.ite_eq_ok.mp h
    obtain ⟨s₁, first, others⟩ := Outcome.bind_eq_ok.mp h
    obtain ⟨body, initializers⟩ := ih others
    exact ⟨Outcome.bind_eq_ok.mpr ⟨s₁, first, body⟩,
      forall_mem_cons.mpr ⟨initializer, initializers⟩⟩

section

variable {c : Context} (checked : check c.descriptor = .ok ())
include checked

theorem stmt_stays (h : checkStmt c.descriptor method inLoop p s st = .ok s')
    (inside : Eval.Inside c.descriptor st.flatten) :
    Stays c s s' (fun n => Eval.stmt c n st) (· = .normal) := by
  rintro n callers m flow m' holds ran rfl
  obtain ⟨-, inner, holds', same⟩ := ((Eval.sound checked n).statement h inside holds).of_ok ran
  rwa [← same rfl]

theorem block_stays {stmts : List GridKernel.Stmt}
    (h : checkBody c.descriptor method inLoop p s.push stmts = .ok s')
    (inside : Eval.Inside c.descriptor (Stmt.flattenAll stmts)) :
    Stays c s s (fun n => Eval.block c n stmts) fun _ => True := by
  intro n callers m flow m' holds ran _
  exact (((Eval.sound checked n).nested h inside holds).of_ok ran).2

theorem inits_stays (h : checkInits c.descriptor method inLoop p s.push init = .ok s')
    (inside : Eval.Inside c.descriptor (Stmt.flattenAll init)) :
    Stays c s s' (fun n => Eval.inits c n init) fun _ => True := by
  intro n callers m _ m' holds ran _
  exact ((Eval.sound checked n).initializers (s := s.push) h inside holds).of_ok ran

set_option linter.unusedSectionVars false in
mutual

/-- By induction on statements; what each form adds to its parts is in the lemma of the form. -/
theorem faithful_stmt {inLoop : Bool} {p : Nat} {s s' : Scope} :
    ∀ st : GridKernel.Stmt, checkStmt c.descriptor method inLoop p s st = .ok s' →
      Eval.Inside c.descriptor st.flatten → FaithfulStmt c s st s'
  | .declare name type none, h, _ => by
    obtain ⟨-, -, rfl⟩ := checkStmt_declare h
    exact faithful_declare name type
  | .declare name type (some init), h, _ => by
    obtain ⟨typed, -, rfl⟩ := checkStmt_declare h
    exact faithful_initialize checked (typed init rfl) name
  | .expr e, h, _ => by
    obtain ⟨⟨result, typed⟩, rfl⟩ := checkStmt_expr h
    cases result with
    | some t => exact faithful_effect checked typed
    | none =>
      obtain ⟨name, args, rfl⟩ := typeOf_none typed
      exact faithful_void checked typed
  | .branch cond thenBody elseBody, h, inside => by
    obtain ⟨typed, ⟨_, _, first⟩, ⟨_, _, second⟩, rfl⟩ := checkStmt_branch h
    exact faithful_branch checked typed
      (faithful_body thenBody first inside.tail.append.1)
      (faithful_body elseBody second inside.tail.append.2)
  | .whileLoop cond block, h, inside => by
    obtain ⟨typed, ⟨_, _, rounds⟩, rfl⟩ := checkStmt_whileLoop h
    exact faithful_while checked typed (faithful_body block rounds inside.tail)
      (block_stays checked rounds inside.tail)
  | .doWhile block cond, h, inside => by
    obtain ⟨typed, ⟨_, _, rounds⟩, rfl⟩ := checkStmt_doWhile h
    exact faithful_doWhile checked typed (faithful_body block rounds inside.tail)
      (block_stays checked rounds inside.tail)
  | .forLoop init cond update block, h, inside => by
    obtain ⟨inner, ⟨_, starts⟩, typed, updates, ⟨_, _, rounds⟩, rfl⟩ :=
      checkStmt_forLoop h
    obtain ⟨started, initializers⟩ := checkBody_of_checkInits starts
    obtain ⟨first, second⟩ := inside.tail.append
    exact faithful_for checked initializers (faithful_body init started first)
      (inits_stays checked starts first) typed updates (faithful_body block rounds second)
      (block_stays checked rounds second)
  | .breakLoop, h, _ => by
    obtain ⟨-, rfl⟩ := checkStmt_break h
    exact faithful_break s'
  | .continueLoop, h, _ => by
    obtain ⟨-, rfl⟩ := checkStmt_continue h
    exact faithful_continue s'
  | .ret none, h, _ => by
    obtain ⟨-, rfl⟩ := checkStmt_ret h
    exact faithful_return_void s'
  | .ret (some value), h, _ => by
    obtain ⟨⟨t, typed, -⟩, rfl⟩ := checkStmt_ret h
    exact faithful_return checked typed
  | .block block, h, inside => by
    obtain ⟨⟨_, _, inner⟩, rfl⟩ := checkStmt_block h
    exact faithful_block
      (faithful_body block inner inside.tail)

theorem faithful_body {inLoop : Bool} {p : Nat} {s s' : Scope} :
    ∀ stmts : List GridKernel.Stmt, checkBody c.descriptor method inLoop p s stmts = .ok s' →
      Eval.Inside c.descriptor (Stmt.flattenAll stmts) → FaithfulBody c s stmts s'
  | [], h, _ => by
    cases h
    exact faithful_nil s
  | st :: rest, h, inside => by
    obtain ⟨_, s₁, first, others⟩ := checkBody_cons h
    obtain ⟨inside₁, inside₂⟩ := inside.append
    exact faithful_cons (faithful_stmt st first inside₁)
      (faithful_body rest others inside₂) (stmt_stays checked first inside₁)

end

end

/-- A method of a checked kernel has a translation, and running it follows the method. -/
theorem faithful_method (checked : check c.descriptor = .ok ())
    (member : method ∈ c.descriptor.methods) :
    ∃ b, methodBody c.descriptor method = .ok b ∧
      ∀ {n steps names callers args m v m' itself}, n ≤ steps →
        args.map Value.type = method.params.map Param.type → Holds c names callers m →
        Eval.invoke c n method args m = .ok v m' →
        Allows itself b.stmts (Stmt.allNodes method.body) →
        Follows itself m (b.run c steps method args) (· = v) m' := by
  obtain ⟨⟨s', body⟩, -⟩ := checkMethod_eq_ok (Outcome.forM_eq_ok checked member)
  have inside : Eval.Inside c.descriptor (Stmt.flattenAll method.body) :=
    ⟨method, member, fun _ found => found⟩
  obtain ⟨out, temps, emits⟩ := faithful_body checked method.body body inside []
  have translation : methodBody c.descriptor method = .ok ⟨temps, out⟩ :=
    Outcome.bind_eq_ok.mpr ⟨_, emits.translation, rfl⟩
  refine ⟨⟨temps, out⟩, translation, ?_⟩
  intro n steps names callers args m v m' itself enough typed holds ended allowed
  cases n with
  | zero => cases ended
  | succ n =>
    obtain ⟨flow, m₃, framed, returned⟩ := bind_ok ended
    obtain ⟨m₂, ran, left⟩ := Eval.framed_ok framed
    have marked : Eval.marker m = .ok m.frame m := rfl
    have entered : Eval.enter (Eval.frameOf method args) m = .ok () _ := rfl
    have holds₁ := holds.enter (Eval.frameOf method args)
    rw [Eval.frameOf_types typed] at holds₁
    refine (onMachine_follows marked).eq_andThen ((onMachine_follows entered).andThen fun _ _ => ?_)
    refine (emits.block prefix_rfl (Nat.le_of_lt enough) holds₁ ran
      allowed).eq_andThen ?_
    refine (onMachine_follows left).andThen fun _ _ => ?_
    cases flow <;> cases returned <;> exact .ret rfl

end GridKernel.Target
