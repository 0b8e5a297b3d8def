import GridKernel.Proofs.Eval.Mirror
import GridKernel.Proofs.Target.Updates

/-!
# Calls

The arguments of a method or a built-in function are operands: in whatever order they are evaluated,
they yield what evaluating them from left to right yields. A helper has as many steps as the whole
evaluation had, which is enough.
-/

namespace GridKernel.Target

open Eval (Context Machine Holds)
open Typing (typeOf valueType valueTypes check)

variable {c : Context} {callers : Eval.Frame}

/-! ## Arguments -/

theorem chain_of_evalAll (enough : n ≤ steps) (ended : Eval.evalAll c n es m = .ok vs m') :
    Chain c steps es m vs m' := by
  induction es generalizing n m vs with
  | nil =>
    cases n with
    | zero => cases ended
    | succ n =>
      cases ended
      exact .nil
  | cons e rest ih =>
    cases n with
    | zero => cases ended
    | succ n =>
      obtain ⟨v, m₁, first, later⟩ := bind_ok ended
      obtain ⟨ws, m₂, others, last⟩ := bind_ok later
      cases last
      exact .cons (Nat.le_of_succ_le enough) first (ih (Nat.le_of_succ_le enough) others)

theorem Chain.length_eq (h : Chain c steps es m vs m') : vs.length = es.length := by
  induction h with
  | nil => rfl
  | cons _ _ _ ih => exact congrArg Nat.succ ih

theorem types_of_valueTypes (given : valueTypes c.descriptor s es = .ok types) :
    ∀ e ∈ es, ∃ t, typeOf c.descriptor s e = .ok (some t) := by
  induction es generalizing types with
  | nil => exact fun _ member => by cases member
  | cons e rest ih =>
    obtain ⟨t, ts, rfl, first, others⟩ := Typing.valueTypes_cons given
    exact List.forall_mem_cons.mpr ⟨⟨t, first⟩, ih others⟩

theorem plain_of_anyEffects (plain : Expr.anyEffects es = false) :
    ∀ e ∈ es, e.hasEffects = false := by
  simpa [Expr.anyEffects_eq] using plain

/-! ## Methods -/

theorem invoke_of_call (ended : Eval.call c n method es m = .ok result m') :
    ∃ k called vs m₁, k ≤ n ∧ c.descriptor.method? method = some called ∧
      Eval.evalAll c k es m = .ok vs m₁ ∧ Eval.invoke c k called vs m₁ = .ok result m' := by
  cases n with
  | zero => cases ended
  | succ k =>
    cases found : c.descriptor.method? method with
    | none =>
      simp only [Eval.call, found] at ended
      cases ended
    | some callee =>
      simp only [Eval.call, found] at ended
      obtain ⟨vs, m₁, evaluated, invoked⟩ := bind_ok ended
      exact ⟨k, callee, vs, m₁, Nat.le_succ k, rfl, evaluated, invoked⟩

theorem call_of_eval (ended : Eval.eval c (n + 1) (.call method es) m = .ok v m') :
    ∃ k called vs m₁, k ≤ n ∧ c.descriptor.method? method = some called ∧
      Eval.evalAll c k es m = .ok vs m₁ ∧ Eval.invoke c k called vs m₁ = .ok (some v) m' := by
  obtain ⟨result, m₂, called, returned⟩ := bind_ok ended
  cases result with
  | none => cases returned
  | some w =>
    cases returned
    exact invoke_of_call called

theorem faithful_call (checked : check c.descriptor = .ok ()) (h : ∀ e ∈ es, Faithful c s e)
    (method) : Faithful c s (.call method es) := by
  intro t type temps
  obtain ⟨called, found, -, arity, arguments, -⟩ := Typing.typeOf_call type
  have given := Typing.valueTypes_of_checkArgs arity arguments
  obtain ⟨ems, temps', laid⟩ :=
    Laid.exists_of_faithful h (types_of_valueTypes given) (hazard es) temps
  refine ⟨⟨ems.flatMap Emitted.pre, .call (.helper method) (ems.map Emitted.value), true⟩, temps',
    .of_steps type (emit_bind laid.inOrder) laid.grows nofun ?_⟩
  intro types n steps callers m v m' inside enough holds ended T
  obtain ⟨k, callee, vs, m₁, fewer, found', evaluated, invoked⟩ := call_of_eval ended
  have enough : k ≤ steps := by omega
  have prepared := laid.prepared checked inside holds (chain_of_evalAll enough evaluated) T
  refine prepared.extend (fun _ => List.mem_cons_of_mem _) fun operands => ?_
  refine call_takes nofun operands ?_
  refine (orUndefined_takes found').eq_andThen ?_
  exact (onMachine_takes (Eval.invoke_more enough invoked)).eq_andThen (orUndefined_takes rfl)

/-! ## Built-in functions -/

theorem builtin_pre (func first args pre) : (builtin func first args pre).pre = pre := by
  cases func with
  | abs =>
    unfold builtin
    dsimp only
    split <;> rfl
  | _ => rfl

theorem math_of_builtinValue (question : func.isQuery = false) (pass : func ≠ .passId)
    (computed : Eval.builtinValue c func vs m = .ok v m') : Eval.math func vs = .ok v := by
  unfold Eval.builtinValue at computed
  rw [if_neg pass, if_neg (by rw [question]; exact Bool.false_ne_true)] at computed
  exact (ok_of_orTrap computed).1

/-- A function of the library that does what the built-in one does. -/
theorem math_takes (computed : Eval.builtinValue c func vs m' = .ok v m')
    (operands : Operands (execs c steps types args) vs m T m' T' reach bad)
    (question : func.isQuery = false) (pass : func ≠ .passId)
    (library : libraryFunction name vs = Eval.math func vs) :
    Takes (At m T) (exec c steps types (.call (.math name) args)) (Busy reach v) (At m' T') bad :=
  call_takes nofun operands
    (orTrap_takes (library.trans (math_of_builtinValue question pass computed)))

/-- A cast to the type that the value has. -/
theorem cast_own_takes (own : v.type = t) (exact : t.isFloating = false)
    (h : Takes (At m T) (exec c steps types value) (Busy reach v) (At m' T') bad) :
    Takes (At m T) (exec c steps types (.cast t value)) (Busy reach v) (At m' T') bad := by
  subst own
  have cast := cast_takes h (show (v.type.isFloating && v.type.isIntegral) = false by rw [exact]; rfl)
  rwa [v.cast_type] at cast

theorem query_takes (question : func.isQuery = true)
    (computed : Eval.builtinValue c func vs m' = .ok v m')
    (operands : Operands (execs c steps types args) vs m T m' T' reach bad) :
    Takes (At m T) (exec c steps types (.cast .int (.call (.query func) args))) (Busy reach v)
      (At m' T') bad := by
  have int : v.type = .int := by
    unfold Eval.builtinValue at computed
    rw [if_pos question] at computed
    split at computed <;> (cases computed; rfl)
  exact cast_own_takes int rfl (call_takes nofun operands (onMachine_takes computed))

/-- A built-in function as it is translated. -/
theorem builtin_takes (arity : vs.length = func.arity)
    (typed : Typing.builtinType func (vs.map Value.type) = .ok t) (result : v.type = t)
    (computed : Eval.builtinValue c func vs m' = .ok v m')
    (operands : Operands (execs c steps types args) vs m T m' T' reach bad) (pre) :
    Takes (At m T) (exec c steps types (builtin func (vs.map Value.type).head? args pre).value)
      (Busy reach v) (At m' T') bad := by
  cases func with
  | passId =>
    obtain rfl := List.eq_nil_of_length_eq_zero arity
    have none : args = [] := by
      obtain ⟨safe, busy, active, -, -, -, arranged⟩ := operands
      cases args with
      | nil => rfl
      | cons e rest => cases arranged
    subst none
    cases computed
    exact call_takes (by simp) operands (.ret rfl)
  | abs =>
    obtain ⟨a, rfl⟩ := List.length_eq_one_iff.mp arity
    have own : t = a.type := by
      simp only [Typing.builtinType, List.map_cons, List.map_nil] at typed
      split at typed
      · cases typed
        rfl
      · cases typed
    unfold builtin
    dsimp only
    split
    · exact math_takes computed operands rfl (by decide) rfl
    · rename_i integral
      refine cast_own_takes (result.trans own) (by simpa using integral) ?_
      exact math_takes computed operands rfl (by decide) rfl
  | min | max =>
    refine math_takes computed operands rfl (by decide) ?_
    split <;> rfl
  | globalId | localId | groupId | globalSize | localSize | numGroups =>
    exact query_takes rfl computed operands
  | _ => exact math_takes computed operands rfl (by decide) rfl

theorem builtin_eq (func) (given : valueTypes c.descriptor s es = .ok types)
    (laid : Laid c s (hazard es) es temps ems temps') :
    expr c.descriptor s (.builtin func es) temps =
      .ok (builtin func types.head? (ems.map Emitted.value) (ems.flatMap Emitted.pre), temps') := by
  cases es with
  | nil =>
    cases given
    rw [expr, pure_bind]
    exact emit_bind laid.inOrder
  | cons e rest =>
    obtain ⟨t, ts, rfl, first, -⟩ := Typing.valueTypes_cons given
    rw [expr, emit_bind (typed_eq (Typing.valueType_eq_ok.mpr first) temps), pure_bind]
    exact emit_bind laid.inOrder

theorem faithful_builtin (checked : check c.descriptor = .ok ()) (h : ∀ e ∈ es, Faithful c s e)
    (func) : Faithful c s (.builtin func es) := by
  intro t type temps
  obtain ⟨types, _, ⟨⟩, arity, given, typed⟩ := Typing.typeOf_builtin type
  obtain ⟨ems, temps', laid⟩ :=
    Laid.exists_of_faithful h (types_of_valueTypes given) (hazard es) temps
  let whole := builtin func types.head? (ems.map Emitted.value) (ems.flatMap Emitted.pre)
  refine ⟨whole, temps', .of_steps type (builtin_eq func given laid) laid.grows (fun plain => ?_) ?_⟩
  · have effects := plain_of_anyEffects plain
    rw [hazard_of_plain effects] at laid
    rw [builtin_pre]
    exact laid.no_temps effects
  · intro temporaries n steps callers m v m' inside enough holds ended T
    obtain ⟨value, holds'⟩ := ((Eval.sound checked (n + 1)).value type holds).of_ok ended
    obtain ⟨vs, m₁, evaluated, computed⟩ := bind_ok ended
    obtain ⟨rfl, -⟩ := ((Eval.sound checked n).values given holds).of_ok evaluated
    have chain := chain_of_evalAll enough evaluated
    have count : vs.length = func.arity := chain.length_eq.trans arity
    obtain ⟨w, yielded, -⟩ := Eval.builtinValue_yields (c := c) count typed m₁
    obtain rfl : m₁ = m' := by
      rw [yielded] at computed
      cases computed
      rfl
    have prepared := laid.prepared checked inside holds chain T
    have runs : Runs c steps temporaries ⟨ems.flatMap Emitted.pre, whole.value, whole.simple⟩
        (Expr.builtin func es).nodes temps.length temps'.length m T v m₁ :=
      prepared.extend (fun _ => List.mem_cons_of_mem _) fun operands =>
        builtin_takes count typed value computed operands _
    rw [← builtin_pre func (vs.map Value.type).head? (ems.map Emitted.value)
      (ems.flatMap Emitted.pre)] at runs
    exact runs

end GridKernel.Target
