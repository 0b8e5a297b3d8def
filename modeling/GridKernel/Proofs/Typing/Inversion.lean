import GridKernel.Proofs.Outcome
import GridKernel.Typing.Method

/-!
# What a successful check says

One lemma for each form of expression and of statement: if it has a type, its parts have the types
they need. Proofs about checked programs use these and do not look into the checker.
-/

namespace GridKernel.Typing

open Outcome

variable {result : Option ScalarType}

/-! ## Fields and locals -/

theorem field_eq_ok : field d name = .ok f ↔ d.field? name = some f := by
  unfold field
  cases d.field? name with
  | none => exact ⟨nofun, nofun⟩
  | some g => exact ⟨fun h => congrArg some (Except.ok.inj h), fun h => h ▸ rfl⟩

theorem arrayType_eq_ok : arrayType d name = .ok t ↔
    ∃ f, d.field? name = some f ∧ f.isArray = true ∧ f.element = .scalar t := by
  unfold arrayType
  simp only [bind_eq_ok, field_eq_ok]
  refine exists_congr fun f => and_congr_right fun _ => ?_
  cases f.element <;> cases f.isArray <;> simp

theorem scalarType_eq_ok : scalarType d name = .ok t ↔
    ∃ f, d.field? name = some f ∧ f.isArray = false ∧ f.element = .scalar t := by
  unfold scalarType
  simp only [bind_eq_ok, field_eq_ok]
  refine exists_congr fun f => and_congr_right fun _ => ?_
  cases f.element <;> cases f.isArray <;> simp

theorem localType_eq_ok : localType s name = .ok t ↔ s.lookup? name = some t := by
  unfold localType
  cases s.lookup? name with
  | none => exact ⟨nofun, nofun⟩
  | some u => exact ⟨fun h => congrArg some (Except.ok.inj h), fun h => h ▸ rfl⟩

theorem slotWidth_eq_ok :
    slotWidth d op name = .ok (f, w) ↔ d.field? name = some f ∧ f.element = .atomic w := by
  unfold slotWidth
  simp only [bind_eq_ok, field_eq_ok, Field.slotWidth?]
  constructor
  · rintro ⟨g, found, h⟩
    cases element : g.element with
    | scalar u => simp [element] at h
    | atomic v =>
      simp only [element] at h
      cases h
      exact ⟨found, element⟩
  · rintro ⟨found, element⟩
    exact ⟨f, found, by simp [element]⟩

theorem callee_eq_ok :
    callee d name given = .ok m ↔
      d.method? name = some m ∧ m.name ≠ d.entry ∧ given = m.params.length := by
  unfold callee
  cases found : d.method? name with
  | none => exact ⟨nofun, nofun⟩
  | some m' =>
    simp only [ite_error_eq_ok, Except.ok.injEq, Option.some.injEq, ne_eq, Classical.not_not]
    constructor
    · rintro ⟨entry, arity, rfl⟩
      exact ⟨rfl, entry, arity⟩
    · rintro ⟨rfl, entry, arity⟩
      exact ⟨entry, arity, rfl⟩

/-! ## Expressions -/

-- The equations of the mutual recursion are derived here once, ahead of the lemmas that use them.
attribute [local simp] typeOf placeType checkSlot checkSlotIndex checkArgs checkOperands valueTypes

theorem asValue_eq_ok : asValue e r = .ok t ↔ r = .ok (some t) := by
  unfold asValue
  rw [bind_eq_ok]
  constructor
  · rintro ⟨result, rfl, h⟩
    cases result with
    | none => cases h
    | some u => exact congrArg (fun t => Except.ok (some t)) (Except.ok.inj h)
  · rintro rfl
    exact ⟨some t, rfl, rfl⟩

theorem valueType_eq_ok : valueType d s e = .ok t ↔ typeOf d s e = .ok (some t) :=
  asValue_eq_ok

theorem expectType_eq_ok : expectType role want r = .ok u ↔ r = .ok want := by
  unfold expectType
  simp only [bind_eq_ok, ite_eq_ok]
  constructor
  · rintro ⟨found, rfl, rfl, -⟩
    rfl
  · rintro rfl
    exact ⟨want, rfl, rfl, trivial⟩

theorem typeOf_element (h : typeOf d s (.element array index) = .ok result) :
    ∃ t, result = some t ∧ typeOf d s index = .ok (some .int) ∧ arrayType d array = .ok t := by
  simp only [typeOf, bind_eq_ok, expectType_eq_ok, asValue_eq_ok, pure_eq_ok] at h
  obtain ⟨_, position, t, elements, rfl⟩ := h
  exact ⟨t, rfl, position, elements⟩

theorem typeOf_length (h : typeOf d s (.length array) = .ok result) :
    result = some .int ∧ ∃ f, d.field? array = some f ∧ f.isArray = true := by
  simp only [typeOf, bind_eq_ok, field_eq_ok, ite_eq_ok, Except.ok.injEq] at h
  obtain ⟨f, found, many, rfl⟩ := h
  exact ⟨rfl, f, found, many⟩

theorem typeOf_binary (h : typeOf d s (.binary op lhs rhs) = .ok result) :
    ∃ l r t, result = some t ∧ typeOf d s lhs = .ok (some l) ∧ typeOf d s rhs = .ok (some r) ∧
      binaryType op l r = .ok t := by
  simp only [typeOf, bind_eq_ok, asValue_eq_ok, pure_eq_ok] at h
  obtain ⟨l, left, r, right, t, operator, rfl⟩ := h
  exact ⟨l, r, t, rfl, left, right, operator⟩

theorem typeOf_unary (h : typeOf d s (.unary op operand) = .ok result) :
    ∃ u t, result = some t ∧ typeOf d s operand = .ok (some u) ∧ unaryType op u = .ok t := by
  simp only [typeOf, bind_eq_ok, asValue_eq_ok, pure_eq_ok] at h
  obtain ⟨u, inner, t, operator, rfl⟩ := h
  exact ⟨u, t, rfl, inner, operator⟩

variable {cond : Expr}

theorem typeOf_conditional (h : typeOf d s (.conditional cond thenValue elseValue) = .ok result) :
    ∃ t, result = some t ∧ typeOf d s cond = .ok (some .boolean) ∧
      typeOf d s thenValue = .ok (some t) ∧ typeOf d s elseValue = .ok (some t) := by
  simp only [typeOf, bind_eq_ok, expectType_eq_ok, asValue_eq_ok, ite_eq_ok,
    Except.ok.injEq] at h
  obtain ⟨_, condition, t, first, u, second, rfl, rfl⟩ := h
  exact ⟨t, rfl, condition, first, second⟩

theorem typeOf_cast (h : typeOf d s (.cast type value implicit) = .ok result) :
    result = some type ∧ ∃ u, typeOf d s value = .ok (some u) ∧ castType type u = .ok type := by
  simp only [typeOf, bind_eq_ok, asValue_eq_ok, pure_eq_ok] at h
  obtain ⟨u, source, t, casted, rfl⟩ := h
  obtain ⟨-, ⟨⟩⟩ := ite_error_eq_ok.mp casted
  exact ⟨rfl, u, source, casted⟩

theorem typeOf_assign (h : typeOf d s (.assign target op value) = .ok result) :
    ∃ t v, result = some t ∧ placeType d s target = .ok t ∧ typeOf d s value = .ok (some v) ∧
      assignType target op t v = .ok t := by
  simp only [typeOf, bind_eq_ok, asValue_eq_ok, pure_eq_ok] at h
  obtain ⟨t, place, v, source, u, assigned, rfl⟩ := h
  have same : u = t := by
    cases op with
    | none => exact (Except.ok.inj (ite_eq_ok.mp assigned).2).symm
    | some op =>
      obtain ⟨-, chained⟩ := ite_error_eq_ok.mp assigned
      obtain ⟨r, -, checked⟩ := bind_eq_ok.mp chained
      exact (Except.ok.inj (ite_eq_ok.mp checked).2).symm
  subst same
  exact ⟨u, v, rfl, place, source, assigned⟩

theorem assignType_plain (h : assignType target none t v = .ok t) : v = t :=
  (ite_eq_ok.mp h).1

theorem assignType_compound (h : assignType target (some op) t v = .ok t) :
    (op.isComparison || op.isShortCircuit) = false ∧ binaryType op t v = .ok t := by
  obtain ⟨arithmetic, chained⟩ := ite_error_eq_ok.mp h
  obtain ⟨r, operator, checked⟩ := bind_eq_ok.mp chained
  obtain ⟨rfl, -⟩ := ite_eq_ok.mp checked
  exact ⟨by simpa using arithmetic, operator⟩

theorem typeOf_step (h : typeOf d s (.step target op before) = .ok result) :
    ∃ t, result = some t ∧ placeType d s target = .ok t ∧ t.isNumeric = true := by
  simp only [typeOf, bind_eq_ok, pure_eq_ok] at h
  obtain ⟨t, place, u, stepped, rfl⟩ := h
  obtain ⟨numeric, ⟨⟩⟩ := ite_eq_ok.mp stepped
  exact ⟨t, rfl, place, numeric⟩

theorem typeOf_call (h : typeOf d s (.call name args) = .ok result) :
    ∃ m, d.method? name = some m ∧ m.name ≠ d.entry ∧ args.length = m.params.length ∧
      checkArgs d s m.params args = .ok () ∧ result = m.ret := by
  simp only [typeOf, bind_eq_ok, callee_eq_ok, pure_eq_ok] at h
  obtain ⟨m, ⟨found, entry, arity⟩, ⟨⟩, checked, rfl⟩ := h
  exact ⟨m, found, entry, arity, checked, rfl⟩

theorem typeOf_atomic (h : typeOf d s (.atomic op slot args) = .ok result) :
    ∃ f w, result = some w.scalar ∧ d.field? slot.field = some f ∧ f.element = .atomic w ∧
      checkSlot d s f.isArray slot = .ok () ∧ args.length = op.arity ∧
      checkOperands d s op w args = .ok () := by
  simp only [typeOf, bind_eq_ok] at h
  obtain ⟨⟨f, w⟩, found, ⟨⟩, named, h⟩ := h
  obtain ⟨found, element⟩ := slotWidth_eq_ok.mp found
  obtain ⟨arity, h⟩ := ite_error_eq_ok.mp h
  obtain ⟨⟨⟩, operands, h⟩ := bind_eq_ok.mp h
  exact ⟨f, w, (pure_eq_ok.mp h).symm, found, element, named, Classical.not_not.mp arity, operands⟩

theorem typeOf_builtin (h : typeOf d s (.builtin func args) = .ok result) :
    ∃ types t, result = some t ∧ args.length = func.arity ∧
      valueTypes d s args = .ok types ∧ builtinType func types = .ok t := by
  simp only [typeOf] at h
  obtain ⟨arity, h⟩ := ite_error_eq_ok.mp h
  simp only [bind_eq_ok, pure_eq_ok] at h
  obtain ⟨types, given, t, builtin, rfl⟩ := h
  exact ⟨types, t, rfl, Classical.not_not.mp arity, given, builtin⟩

theorem placeType_element (h : placeType d s (.element array index) = .ok t) :
    typeOf d s index = .ok (some .int) ∧ arrayType d array = .ok t := by
  simp only [placeType, bind_eq_ok, expectType_eq_ok, asValue_eq_ok] at h
  obtain ⟨_, position, elements⟩ := h
  exact ⟨position, elements⟩

theorem checkSlot_index {isArray : Bool} {slot : SlotRef Expr}
    (h : checkSlot d s isArray slot = .ok ()) :
    match slot.index with
    | some index => isArray = true ∧ typeOf d s index = .ok (some .int)
    | none => isArray = false := by
  obtain ⟨name, index⟩ := slot
  cases index with
  | none =>
    simp only [checkSlot, checkSlotIndex, ite_error_eq_ok] at h
    simpa using h.1
  | some index =>
    simp only [checkSlot, checkSlotIndex, ite_eq_ok, expectType_eq_ok, asValue_eq_ok] at h
    exact h

theorem checkArgs_cons (h : checkArgs d s (p :: params) (e :: rest) = .ok ()) :
    typeOf d s e = .ok (some p.type) ∧ checkArgs d s params rest = .ok () := by
  simp only [checkArgs, bind_eq_ok, expectType_eq_ok, asValue_eq_ok] at h
  obtain ⟨_, first, others⟩ := h
  exact ⟨first, others⟩

theorem checkOperands_cons (h : checkOperands d s op w (e :: rest) = .ok ()) :
    typeOf d s e = .ok (some w.scalar) ∧ checkOperands d s op w rest = .ok () := by
  simp only [checkOperands, bind_eq_ok, asValue_eq_ok, ite_eq_ok] at h
  obtain ⟨t, first, rfl, others⟩ := h
  exact ⟨first, others⟩

theorem valueTypes_cons (h : valueTypes d s (e :: rest) = .ok types) :
    ∃ t ts, types = t :: ts ∧ typeOf d s e = .ok (some t) ∧ valueTypes d s rest = .ok ts := by
  simp only [valueTypes, bind_eq_ok, asValue_eq_ok, pure_eq_ok] at h
  obtain ⟨t, first, ts, others, rfl⟩ := h
  exact ⟨t, ts, rfl, first, others⟩

/-! ## Statements -/

theorem locate_eq_ok : locate position r = .ok a ↔ r = .ok a :=
  mapError_eq_ok

theorem checkCondition_eq_ok :
    checkCondition d s cond = .ok u ↔ typeOf d s cond = .ok (some .boolean) :=
  expectType_eq_ok.trans valueType_eq_ok

theorem checkUpdates_cons (h : checkUpdates d s (e :: rest) = .ok ()) :
    (∃ result, typeOf d s e = .ok result) ∧ checkUpdates d s rest = .ok () := by
  obtain ⟨result, first, others⟩ := bind_eq_ok.mp h
  exact ⟨⟨result, first⟩, others⟩

theorem checkStmt_declare (h : checkStmt d m inLoop position s (.declare name type init) = .ok s') :
    (∀ e, init = some e → typeOf d s e = .ok (some type)) ∧ s.declares name = false ∧
      s' = s.declare name type := by
  replace h : checkDeclare d s name type init = .ok s' := locate_eq_ok.mp h
  have declared : ∀ {r : Except TypeFault Scope},
      r = (if !Name.isValid name then .error (.badLocalName name)
        else if s.declares name then .error (.redeclared name)
        else pure (s.declare name type)) → r = .ok s' →
      s.declares name = false ∧ s' = s.declare name type := by
    rintro r rfl h
    obtain ⟨-, h⟩ := ite_error_eq_ok.mp h
    obtain ⟨fresh, h⟩ := ite_error_eq_ok.mp h
    exact ⟨by simpa using fresh, (pure_eq_ok.mp h).symm⟩
  cases init with
  | none => exact ⟨nofun, declared rfl h⟩
  | some e =>
    obtain ⟨u, typed, h⟩ := bind_eq_ok.mp h
    by_cases same : u = type
    · subst same
      rw [if_neg (not_not_intro rfl)] at h
      refine ⟨?_, declared rfl h⟩
      rintro e' ⟨⟩
      exact valueType_eq_ok.mp typed
    · rw [if_pos same] at h
      cases h

theorem checkStmt_expr (h : checkStmt d m inLoop position s (.expr e) = .ok s') :
    (∃ result, typeOf d s e = .ok result) ∧ s' = s := by
  obtain ⟨result, typed, h⟩ := bind_eq_ok.mp h
  exact ⟨⟨result, locate_eq_ok.mp typed⟩, (pure_eq_ok.mp h).symm⟩

theorem checkStmt_branch
    (h : checkStmt d m inLoop position s (.branch cond thenBody elseBody) = .ok s') :
    typeOf d s cond = .ok (some .boolean) ∧
      (∃ p s₁, checkBody d m inLoop p s.push thenBody = .ok s₁) ∧
      (∃ p s₂, checkBody d m inLoop p s.push elseBody = .ok s₂) ∧ s' = s := by
  obtain ⟨_, condition, h⟩ := bind_eq_ok.mp h
  obtain ⟨s₁, first, h⟩ := bind_eq_ok.mp h
  obtain ⟨s₂, second, h⟩ := bind_eq_ok.mp h
  exact ⟨checkCondition_eq_ok.mp (locate_eq_ok.mp condition), ⟨_, s₁, first⟩, ⟨_, s₂, second⟩,
    (pure_eq_ok.mp h).symm⟩

theorem checkStmt_whileLoop (h : checkStmt d m inLoop position s (.whileLoop cond body) = .ok s') :
    typeOf d s cond = .ok (some .boolean) ∧
      (∃ p s₁, checkBody d m true p s.push body = .ok s₁) ∧ s' = s := by
  obtain ⟨_, condition, h⟩ := bind_eq_ok.mp h
  obtain ⟨s₁, rounds, h⟩ := bind_eq_ok.mp h
  exact ⟨checkCondition_eq_ok.mp (locate_eq_ok.mp condition), ⟨_, s₁, rounds⟩,
    (pure_eq_ok.mp h).symm⟩

theorem checkStmt_doWhile (h : checkStmt d m inLoop position s (.doWhile body cond) = .ok s') :
    typeOf d s cond = .ok (some .boolean) ∧
      (∃ p s₁, checkBody d m true p s.push body = .ok s₁) ∧ s' = s := by
  obtain ⟨s₁, rounds, h⟩ := bind_eq_ok.mp h
  obtain ⟨_, condition, h⟩ := bind_eq_ok.mp h
  exact ⟨checkCondition_eq_ok.mp (locate_eq_ok.mp condition), ⟨_, s₁, rounds⟩,
    (pure_eq_ok.mp h).symm⟩

theorem checkStmt_forLoop {cond : Option Expr}
    (h : checkStmt d m inLoop position s (.forLoop init cond update body) = .ok s') :
    ∃ inner, (∃ p, checkInits d m inLoop p s.push init = .ok inner) ∧
      (∀ e, cond = some e → typeOf d inner e = .ok (some .boolean)) ∧
      checkUpdates d inner update = .ok () ∧
      (∃ p s₁, checkBody d m true p inner.push body = .ok s₁) ∧ s' = s := by
  obtain ⟨inner, started, h⟩ := bind_eq_ok.mp h
  refine ⟨inner, ⟨_, started⟩, ?_⟩
  cases cond with
  | none =>
    simp only [bind_eq_ok, locate_eq_ok, pure_eq_ok] at h
    obtain ⟨⟨⟩, updates, s₁, rounds, rfl⟩ := h
    exact ⟨nofun, updates, ⟨_, s₁, rounds⟩, rfl⟩
  | some e =>
    simp only [bind_eq_ok, locate_eq_ok, checkCondition_eq_ok, pure_eq_ok] at h
    obtain ⟨_, condition, ⟨⟩, updates, s₁, rounds, rfl⟩ := h
    exact ⟨fun e' same => Option.some.inj same ▸ condition, updates, ⟨_, s₁, rounds⟩, rfl⟩

theorem checkStmt_break (h : checkStmt d m inLoop position s .breakLoop = .ok s') :
    inLoop = true ∧ s' = s := by
  obtain ⟨loop, h⟩ := ite_eq_ok.mp h
  exact ⟨loop, (Except.ok.inj h).symm⟩

theorem checkStmt_continue (h : checkStmt d m inLoop position s .continueLoop = .ok s') :
    inLoop = true ∧ s' = s := by
  obtain ⟨loop, h⟩ := ite_eq_ok.mp h
  exact ⟨loop, (Except.ok.inj h).symm⟩

theorem checkStmt_ret (h : checkStmt d m inLoop position s (.ret value) = .ok s') :
    (match value with
      | some e => ∃ t, typeOf d s e = .ok (some t) ∧ m.ret = some t
      | none => m.ret = none) ∧ s' = s := by
  obtain ⟨⟨⟩, returned, h⟩ := bind_eq_ok.mp h
  refine ⟨?_, (pure_eq_ok.mp h).symm⟩
  replace returned : checkReturn d m s value = .ok () := locate_eq_ok.mp returned
  cases value with
  | none => exact (ite_eq_ok.mp returned).1.symm
  | some e =>
    obtain ⟨t, typed, returned⟩ := bind_eq_ok.mp returned
    exact ⟨t, valueType_eq_ok.mp typed, (ite_eq_ok.mp returned).1.symm⟩

theorem checkStmt_block (h : checkStmt d m inLoop position s (.block body) = .ok s') :
    (∃ p s₁, checkBody d m inLoop p s.push body = .ok s₁) ∧ s' = s := by
  obtain ⟨s₁, checked, h⟩ := bind_eq_ok.mp h
  exact ⟨⟨_, s₁, checked⟩, (pure_eq_ok.mp h).symm⟩

theorem checkBody_cons {stmt : Stmt} {rest : List Stmt}
    (h : checkBody d m inLoop position s (stmt :: rest) = .ok s') :
    ∃ p s₁, checkStmt d m inLoop position s stmt = .ok s₁ ∧
      checkBody d m inLoop p s₁ rest = .ok s' := by
  obtain ⟨s₁, first, others⟩ := bind_eq_ok.mp h
  exact ⟨_, s₁, first, others⟩

theorem checkInits_cons {stmt : Stmt} {rest : List Stmt}
    (h : checkInits d m inLoop position s (stmt :: rest) = .ok s') :
    isInitializer stmt = true ∧ ∃ p s₁, checkStmt d m inLoop position s stmt = .ok s₁ ∧
      checkInits d m inLoop p s₁ rest = .ok s' := by
  obtain ⟨initializer, h⟩ := ite_eq_ok.mp h
  obtain ⟨s₁, first, others⟩ := bind_eq_ok.mp h
  exact ⟨initializer, _, s₁, first, others⟩

/-- A checked method has a checked body, and does not run off its end if it returns a value. -/
theorem checkMethod_eq_ok (h : checkMethod d m = .ok ()) :
    (∃ s', checkBody d m false 0 (.ofMethod m) m.body = .ok s') ∧
      (m.ret.isSome = true → anyReturns m.body = true) := by
  unfold checkMethod at h
  split at h
  · cases h
  · split at h
    · cases h
    · rename_i s' checked
      obtain ⟨ends, -⟩ := ite_error_eq_ok.mp h
      refine ⟨⟨s', checked⟩, fun returns => ?_⟩
      simpa [returns] using ends

end GridKernel.Typing
