import GridKernel.Proofs.Eval.Flow
import GridKernel.Proofs.Typing.State

/-!
# Checked programs evaluate as they are typed

One induction on the number of steps: from a state that matches the scope, an expression gives a
value of its type, a statement leaves a state that matches the scope after it, and a call returns
what the method declares. The only early ends are those of `Allowed`.
-/

namespace GridKernel

open List Outcome Ensures

variable {args : List Expr} {types : List ScalarType} {init : List Stmt} {e : Expr}

namespace Typing

variable {d : Descriptor} {s s' : Scope}

/-- Only a call of a void method has no value. -/
theorem typeOf_none (h : typeOf d s e = .ok none) : ∃ name args, e = .call name args := by
  cases e with
  | call name args => exact ⟨name, args, rfl⟩
  | literal v => cases h
  | var name | field name => obtain ⟨t, -, h⟩ := bind_eq_ok.mp h; cases h
  | element array index => obtain ⟨t, h, -⟩ := typeOf_element h; cases h
  | length array => cases (typeOf_length h).1
  | binary op lhs rhs => obtain ⟨l, r, t, h, -⟩ := typeOf_binary h; cases h
  | unary op operand => obtain ⟨u, t, h, -⟩ := typeOf_unary h; cases h
  | conditional cond thenValue elseValue => obtain ⟨t, h, -⟩ := typeOf_conditional h; cases h
  | cast type value implicit => cases (typeOf_cast h).1
  | assign target op value => obtain ⟨t, v, h, -⟩ := typeOf_assign h; cases h
  | step target op before => obtain ⟨t, h, -⟩ := typeOf_step h; cases h
  | atomic op slot args => obtain ⟨f, w, h, -⟩ := typeOf_atomic h; cases h
  | builtin func args => obtain ⟨types, t, h, -⟩ := typeOf_builtin h; cases h

/-- Arguments that fit the parameters have their types. -/
theorem valueTypes_of_checkArgs (arity : args.length = params.length)
    (h : checkArgs d s params args = .ok ()) :
    valueTypes d s args = .ok (params.map Param.type) := by
  induction params generalizing args with
  | nil =>
    obtain rfl := eq_nil_of_length_eq_zero arity
    rfl
  | cons p params ih =>
    cases args with
    | nil => cases arity
    | cons e rest =>
      obtain ⟨first, others⟩ := checkArgs_cons h
      have tail := ih (Nat.succ.inj arity) others
      simp only [valueTypes, first, asValue, tail]
      rfl

theorem valueTypes_length (h : valueTypes d s args = .ok types) : types.length = args.length := by
  induction args generalizing types with
  | nil => cases h; rfl
  | cons e rest ih =>
    obtain ⟨t, ts, rfl, -, others⟩ := valueTypes_cons h
    rw [length_cons, length_cons, ih others]

/-- A statement only adds names. -/
theorem checkStmt_names {stmt : Stmt} (h : checkStmt d m inLoop position s stmt = .ok s') :
    ∃ inner, s'.names = inner ++ s.names := by
  cases stmt with
  | declare name type init =>
    obtain ⟨-, fresh, rfl⟩ := checkStmt_declare h
    exact ⟨[(name, type)], Scope.names_declare fresh type⟩
  | expr e => obtain ⟨-, rfl⟩ := checkStmt_expr h; exact ⟨[], rfl⟩
  | branch cond thenBody elseBody => obtain ⟨-, -, -, rfl⟩ := checkStmt_branch h; exact ⟨[], rfl⟩
  | whileLoop cond body => obtain ⟨-, -, rfl⟩ := checkStmt_whileLoop h; exact ⟨[], rfl⟩
  | doWhile body cond => obtain ⟨-, -, rfl⟩ := checkStmt_doWhile h; exact ⟨[], rfl⟩
  | forLoop init cond update body =>
    obtain ⟨inner, -, -, -, -, rfl⟩ := checkStmt_forLoop h
    exact ⟨[], rfl⟩
  | breakLoop => obtain ⟨-, rfl⟩ := checkStmt_break h; exact ⟨[], rfl⟩
  | continueLoop => obtain ⟨-, rfl⟩ := checkStmt_continue h; exact ⟨[], rfl⟩
  | ret value => obtain ⟨-, rfl⟩ := checkStmt_ret h; exact ⟨[], rfl⟩
  | block body => obtain ⟨-, rfl⟩ := checkStmt_block h; exact ⟨[], rfl⟩

theorem checkInits_names (h : checkInits d m inLoop position s init = .ok s') :
    ∃ inner, s'.names = inner ++ s.names := by
  induction init generalizing s position with
  | nil => cases h; exact ⟨[], rfl⟩
  | cons stmt rest ih =>
    obtain ⟨-, p, s₁, first, others⟩ := checkInits_cons h
    obtain ⟨inner, names⟩ := checkStmt_names first
    obtain ⟨inner', names'⟩ := ih others
    exact ⟨inner' ++ inner, by rw [names', names, append_assoc]⟩

end Typing

namespace Eval

open Typing

/-- The ways in which a statement of a method may end. -/
def Flow.Fits (ret : Option ScalarType) (inLoop : Bool) : Flow → Prop
  | .normal => True
  | .broke | .continued => inLoop = true
  | .returned v => v.map Value.type = ret

theorem Flow.Fits.weaken {ret : Option ScalarType} {flow : Flow} (h : flow.Fits ret false)
    (inLoop) : flow.Fits ret inLoop := by
  cases flow with
  | normal => trivial
  | broke | continued => cases h
  | returned v => exact h

/-- The statements are found in a method of the descriptor. -/
def Inside (d : Descriptor) (stmts : List Stmt) : Prop :=
  ∃ m ∈ d.methods, ∀ s ∈ stmts, s ∈ Stmt.flattenAll m.body

namespace Inside

variable {st : Stmt} {stmts : List Stmt}

theorem mono (h : Inside d stmts) (sub : ∀ s ∈ stmts', s ∈ stmts) : Inside d stmts' := by
  obtain ⟨m, member, inside⟩ := h
  exact ⟨m, member, fun s found => inside s (sub s found)⟩

theorem tail (h : Inside d (st :: stmts)) : Inside d stmts := h.mono fun _ => mem_cons_of_mem st

theorem append (h : Inside d (stmts ++ stmts')) : Inside d stmts ∧ Inside d stmts' :=
  ⟨h.mono fun _ => mem_append_left _, h.mono fun _ => mem_append_right _⟩

end Inside

/-- After a statement the locals are those in sight before it and what it declared. -/
def Ended (c : Context) (s s' : Scope) (ret : Option ScalarType) (inLoop : Bool)
    (callers : Frame) (flow : Flow) (m : Machine) : Prop :=
  flow.Fits ret inLoop ∧ ∃ inner, Holds c (inner ++ s.names) callers m ∧
    (flow = .normal → inner ++ s.names = s'.names)

/-- From a state that matches the names in sight the computation is safe, what it gives satisfies
`P`, and the state after it matches them again. -/
def Gives {α : Type} (c : Context) (names : ScopeFrame) (x : Comp α) (P : α → Prop) : Prop :=
  ∀ ⦃callers m⦄, Holds c names callers m → Safe c x m fun a m' => P a ∧ Holds c names callers m'

variable {t : ScalarType} {op : BinaryOp}

namespace Gives

variable {α β : Type} {c : Context} {names : ScopeFrame}

theorem ret (h : P a) : Gives c names (pure a) P := fun _ _ holds => Ensures.ret ⟨h, holds⟩

theorem andThen (first : Gives c names x P) (next : ∀ a, P a → Gives c names (f a) Q) :
    Gives c names (x >>= f) Q :=
  fun _ _ holds => Ensures.andThen (first holds) fun a _ found => next a found.1 found.2

theorem mono (h : Gives c names x P) (weaker : ∀ a, P a → P' a) : Gives c names x P' :=
  fun _ _ holds => (h holds).mono fun a _ found => ⟨weaker a found.1, found.2⟩

/-- An operation that leaves the machine as it was. -/
theorem of_read (h : ∀ ⦃callers m⦄, Holds c names callers m →
    Safe c x m fun a m' => P a ∧ m' = m) : Gives c names x P :=
  fun _ _ holds => (h holds).mono fun _ _ found => ⟨found.1, found.2 ▸ holds⟩

/-- A condition decides how to go on. -/
theorem decides {x : Comp Value} {f : Bool → Comp β} (h : Gives c names x (·.type = .boolean))
    (yes : Gives c names (f true) Q) (no : Gives c names (f false) Q) :
    Gives c names (x >>= fun v => truth v >>= f) Q := by
  refine h.andThen fun v boolean => ?_
  obtain ⟨b, rfl⟩ := Value.boolean_of_type boolean
  cases b with
  | true => exact fun _ _ holds => decided (yes holds)
  | false => exact fun _ _ holds => decided (no holds)

theorem reads (typed : l.Typed c.descriptor names t) :
    Gives c names (readLocation c l) (·.type = t) :=
  of_read fun _ _ holds => readLocation_safe holds typed

theorem writes (typed : l.Typed c.descriptor names v.type) :
    Gives c names (writeLocation c v l) fun _ => True :=
  fun _ _ holds => (writeLocation_safe holds typed).mono fun _ _ holds => ⟨trivial, holds⟩

theorem operator (typed : binaryType op l.type r.type = .ok t) :
    Gives c names (orTrap (binary op l r)) (·.type = t) := by
  have yields := binary_yields typed
  refine fun _ _ holds => lifted ?_ ?_
  · intro result computed
    rw [computed] at yields
    exact ⟨yields, holds⟩
  · intro reason failed
    rw [failed] at yields
    subst yields
    exact .divisionByZero

/-- A round of a loop, and what comes after it. -/
theorem round {x again : Comp Flow} {ret : Option ScalarType}
    (body : Gives c names x (Flow.Fits ret true)) (next : Gives c names again (Flow.Fits ret false)) :
    Gives c names (x >>= afterRound again) (Flow.Fits ret false) := by
  refine body.andThen fun flow fits => ?_
  cases flow with
  | normal | continued => exact next
  | broke => exact .ret trivial
  | returned v => exact .ret fits

end Gives

/-- What evaluations of `n` steps keep. -/
structure Sound (c : Context) (n : Nat) : Prop where
  expr : ∀ {s e result}, typeOf c.descriptor s e = .ok result →
    (∀ {name args}, e = .call name args → result = none → VoidUpdate c.descriptor name) →
    Gives c s.names (eval c n e) (some ·.type = result)
  place : ∀ {s p t}, placeType c.descriptor s p = .ok t →
    Gives c s.names (resolve c n p) (·.Typed c.descriptor s.names t)
  optional : ∀ {s o t}, (∀ e, o = some e → typeOf c.descriptor s e = .ok (some t)) →
    Gives c s.names (evalOption c n o) (·.map Value.type = o.map fun _ => t)
  values : ∀ {s args types}, valueTypes c.descriptor s args = .ok types →
    Gives c s.names (evalAll c n args) (·.map Value.type = types)
  updates : ∀ {s es}, checkUpdates c.descriptor s es = .ok () →
    (∀ {name args}, .call name args ∈ es → typeOf c.descriptor s (.call name args) = .ok none →
      VoidUpdate c.descriptor name) →
    Gives c s.names (evalAll c n es) fun _ => True
  operands : ∀ {s op w args}, checkOperands c.descriptor s op w args = .ok () →
    Gives c s.names (evalOperands c n op args) fun _ => True
  calls : ∀ {s name args method}, c.descriptor.method? name = some method →
    args.length = method.params.length → checkArgs c.descriptor s method.params args = .ok () →
    Gives c s.names (call c n name args) (·.map Value.type = method.ret)
  invocation : ∀ {names method args}, method ∈ c.descriptor.methods →
    args.map Value.type = method.params.map Param.type →
    Gives c names (invoke c n method args) (·.map Value.type = method.ret)
  blocks : ∀ {method inLoop p s s' body},
    checkBody c.descriptor method inLoop p s body = .ok s' →
    Inside c.descriptor (Stmt.flattenAll body) →
    Gives c s.names (block c n body) (Flow.Fits method.ret inLoop)
  body : ∀ {method inLoop p s s' body callers m},
    checkBody c.descriptor method inLoop p s body = .ok s' →
    Inside c.descriptor (Stmt.flattenAll body) → Holds c s.names callers m →
    Safe c (stmts c n body) m (Ended c s s' method.ret inLoop callers)
  statement : ∀ {method inLoop p s s' st callers m},
    checkStmt c.descriptor method inLoop p s st = .ok s' →
    Inside c.descriptor st.flatten → Holds c s.names callers m →
    Safe c (stmt c n st) m (Ended c s s' method.ret inLoop callers)
  whileRounds : ∀ {method p s s' cond body}, typeOf c.descriptor s cond = .ok (some .boolean) →
    checkBody c.descriptor method true p s.push body = .ok s' →
    Inside c.descriptor (Stmt.flattenAll body) →
    Gives c s.names (whileLoop c n cond body) (Flow.Fits method.ret false)
  doRounds : ∀ {method p s s' cond body}, typeOf c.descriptor s cond = .ok (some .boolean) →
    checkBody c.descriptor method true p s.push body = .ok s' →
    Inside c.descriptor (Stmt.flattenAll body) →
    Gives c s.names (doWhile c n body cond) (Flow.Fits method.ret false)
  initializers : ∀ {method inLoop p s s' init callers m},
    checkInits c.descriptor method inLoop p s init = .ok s' →
    Inside c.descriptor (Stmt.flattenAll init) → Holds c s.names callers m →
    Safe c (inits c n init) m fun _ m' => Holds c s'.names callers m'
  forRounds : ∀ {method p s s' cond update body},
    (∀ e, cond = some e → typeOf c.descriptor s e = .ok (some .boolean)) →
    checkUpdates c.descriptor s update = .ok () →
    (∀ {name args}, .call name args ∈ update →
      typeOf c.descriptor s (.call name args) = .ok none → VoidUpdate c.descriptor name) →
    checkBody c.descriptor method true p s.push body = .ok s' →
    Inside c.descriptor (Stmt.flattenAll body) →
    Gives c s.names (forLoop c n cond update body) (Flow.Fits method.ret false)

namespace Sound

variable {s : Scope}

/-- An expression that is used as a value. -/
theorem value (h : Sound c n) (typed : typeOf c.descriptor s e = .ok (some t)) :
    Gives c s.names (Eval.eval c n e) (·.type = t) :=
  (h.expr typed fun _ => nofun).mono fun _ => Option.some.inj

/-! ## Expressions -/

/-- An index is evaluated and checked, and what follows gets its number. -/
theorem indexed {α : Type} {array : String} {index : Expr} {f : Nat → Comp α} {P : α → Prop}
    (h : Sound c n) (position : typeOf c.descriptor s index = .ok (some .int))
    (elements : arrayType c.descriptor array = .ok t) (next : ∀ i, Gives c s.names (f i) P) :
    Gives c s.names (do f (← checkIndex array (← Eval.eval c n index) (← arraySize c array))) P := by
  refine (h.value position).andThen fun v _ _ _ holds => ?_
  refine andThen (arraySize_safe holds elements) ?_
  rintro size m' rfl
  refine andThen (checkIndex_safe array v size) ?_
  rintro i m' ⟨rfl, -⟩
  exact next i holds

theorem binaryType_logical (logical : op.isShortCircuit = true) (h : binaryType op l r = .ok t) :
    l = .boolean ∧ r = .boolean ∧ t = .boolean := by
  cases op <;> cases logical <;> cases l <;> cases r <;> first | exact ⟨rfl, rfl, by cases h; rfl⟩ | cases h

variable {method : Method} {cond : Expr}

section

variable (h : Sound c n)
include h

theorem binary_succ (left : typeOf c.descriptor s lhs = .ok (some l))
    (right : typeOf c.descriptor s rhs = .ok (some r)) (operator : binaryType op l r = .ok t) :
    Gives c s.names (Eval.eval c (n + 1) (.binary op lhs rhs)) (·.type = t) := by
  cases op
  case and =>
    obtain ⟨rfl, rfl, rfl⟩ := binaryType_logical rfl operator
    exact (h.value left).decides ((h.value right).decides (.ret rfl) (.ret rfl)) (.ret rfl)
  case or =>
    obtain ⟨rfl, rfl, rfl⟩ := binaryType_logical rfl operator
    exact (h.value left).decides (.ret rfl) ((h.value right).decides (.ret rfl) (.ret rfl))
  all_goals
    refine (h.value left).andThen ?_
    rintro v rfl
    refine (h.value right).andThen ?_
    rintro w rfl
    exact .operator operator

theorem conditional_succ (condition : typeOf c.descriptor s cond = .ok (some .boolean))
    (first : typeOf c.descriptor s thenValue = .ok (some t))
    (second : typeOf c.descriptor s elseValue = .ok (some t)) :
    Gives c s.names (Eval.eval c (n + 1) (.conditional cond thenValue elseValue)) (·.type = t) :=
  (h.value condition).decides (h.value first) (h.value second)

theorem assign_succ {value : Expr} (place : placeType c.descriptor s target = .ok t)
    (source : typeOf c.descriptor s value = .ok (some t)) :
    Gives c s.names (Eval.eval c (n + 1) (.assign target none value)) (·.type = t) := by
  refine (h.place place).andThen fun l typed => (h.value source).andThen ?_
  rintro v rfl
  exact (Gives.writes typed).andThen fun _ _ => .ret rfl

theorem compound_succ {value : Expr} (place : placeType c.descriptor s target = .ok t)
    (source : typeOf c.descriptor s value = .ok (some u)) (operator : binaryType op t u = .ok t) :
    Gives c s.names (Eval.eval c (n + 1) (.assign target (some op) value)) (·.type = t) := by
  refine (h.place place).andThen fun l typed => (Gives.reads typed).andThen ?_
  rintro old rfl
  refine (h.value source).andThen ?_
  rintro v rfl
  refine (Gives.operator operator).andThen fun result _ => ?_
  have type : (result.cast old.type).type = old.type := Value.type_cast _ _
  exact (Gives.writes (by rwa [type])).andThen fun _ _ => .ret type

theorem step_succ {op : StepOp} {before : Bool} (place : placeType c.descriptor s target = .ok t) :
    Gives c s.names (Eval.eval c (n + 1) (.step target op before)) (·.type = t) := by
  refine (h.place place).andThen fun l typed => (Gives.reads typed).andThen ?_
  rintro old rfl
  have type : (stepped op old).type = old.type := type_stepped op old
  refine (Gives.writes (v := stepped op old) (by rwa [type])).andThen fun _ _ => ?_
  cases before with
  | true => exact .ret type
  | false => exact .ret rfl

theorem call_succ (found : c.descriptor.method? name = some method)
    (arity : args.length = method.params.length)
    (checked : checkArgs c.descriptor s method.params args = .ok ())
    (void : method.ret = none → VoidUpdate c.descriptor name) :
    Gives c s.names (Eval.eval c (n + 1) (.call name args)) (some ·.type = method.ret) := by
  refine (h.calls found arity checked).andThen fun result type => ?_
  cases result with
  | some v => exact .ret type
  | none => exact fun _ _ _ => trapped (.voidUpdate (void type.symm))

theorem atomic_succ {op : AtomicOp} {slot : SlotRef Expr} {f : Field} {w : SlotWidth}
    (declared : c.descriptor.field? slot.field = some f) (element : f.element = .atomic w)
    (named : checkSlot c.descriptor s f.isArray slot = .ok ())
    (checked : checkOperands c.descriptor s op w args = .ok ()) :
    Gives c s.names (Eval.eval c (n + 1) (.atomic op slot args)) (·.type = w.scalar) := by
  have index := checkSlot_index named
  have typed : ∀ e, slot.index = some e → typeOf c.descriptor s e = .ok (some .int) := by
    intro e given
    rw [given] at index
    exact index.2
  refine (h.optional typed).andThen fun v given => (h.operands checked).andThen fun operands _ => ?_
  refine fun _ _ holds => performAtomic_safe holds declared element ?_ operands
  unfold NamesSlot
  rw [← Option.isSome_map (f := Value.type), given, Option.isSome_map]
  split at index
  · rename_i slotIndex
    rw [slotIndex]
    exact index.1.symm
  · rename_i slotIndex
    rw [slotIndex]
    exact index.symm

theorem builtin_succ (arity : args.length = func.arity)
    (given : valueTypes c.descriptor s args = .ok types) (typed : builtinType func types = .ok t) :
    Gives c s.names (Eval.eval c (n + 1) (.builtin func args)) (·.type = t) := by
  refine (h.values given).andThen ?_
  rintro values rfl
  have length : values.length = func.arity := by
    rw [← arity, ← length_map (f := Value.type), valueTypes_length given]
  intro callers m holds
  obtain ⟨v, computed, type⟩ := builtinValue_yields (c := c) length typed m
  exact ended computed ⟨type, holds⟩

theorem expr_succ {result : Option ScalarType} (typed : typeOf c.descriptor s e = .ok result)
    (void : ∀ {name args}, e = .call name args → result = none → VoidUpdate c.descriptor name) :
    Gives c s.names (Eval.eval c (n + 1) e) (some ·.type = result) := by
  have typedAs : ∀ {t : ScalarType}, result = some t →
      Gives c s.names (Eval.eval c (n + 1) e) (·.type = t) →
      Gives c s.names (Eval.eval c (n + 1) e) (some ·.type = result) := by
    rintro t rfl gives
    exact gives.mono fun _ => congrArg some
  cases e with
  | literal v => exact typedAs (Except.ok.inj typed).symm (.ret rfl)
  | var name =>
    obtain ⟨t, declared, typed⟩ := bind_eq_ok.mp typed
    rw [localType_eq_ok, Scope.lookup?_eq] at declared
    exact typedAs (pure_eq_ok.mp typed).symm (.of_read fun _ _ holds =>
      readLocal_safe holds declared)
  | field name =>
    obtain ⟨t, declared, typed⟩ := bind_eq_ok.mp typed
    exact typedAs (pure_eq_ok.mp typed).symm (.of_read fun _ _ holds =>
      readScalar_safe holds declared)
  | element array index =>
    obtain ⟨t, result, position, elements⟩ := typeOf_element typed
    exact typedAs result (h.indexed position elements fun i => .of_read fun _ _ holds =>
      readElement_safe holds elements i)
  | length array =>
    obtain ⟨result, f, declared, many⟩ := typeOf_length typed
    exact typedAs result (.of_read fun _ _ holds => lengthOf_safe holds declared many)
  | binary op lhs rhs =>
    obtain ⟨l, r, t, result, left, right, operator⟩ := typeOf_binary typed
    exact typedAs result (h.binary_succ left right operator)
  | unary op operand =>
    obtain ⟨u, t, result, inner, operator⟩ := typeOf_unary typed
    refine typedAs result ((h.value inner).andThen ?_)
    rintro v rfl
    obtain ⟨w, computed, type⟩ := unary_yields operator
    rw [computed]
    exact .ret type
  | conditional cond thenValue elseValue =>
    obtain ⟨t, result, condition, first, second⟩ := typeOf_conditional typed
    exact typedAs result (h.conditional_succ condition first second)
  | cast type value implicit =>
    obtain ⟨result, u, source, -⟩ := typeOf_cast typed
    exact typedAs result ((h.value source).andThen fun v _ => .ret (Value.type_cast _ _))
  | assign target op value =>
    obtain ⟨t, u, result, place, source, assigned⟩ := typeOf_assign typed
    cases op with
    | none =>
      obtain rfl := assignType_plain assigned
      exact typedAs result (h.assign_succ place source)
    | some op =>
      obtain ⟨-, operator⟩ := assignType_compound assigned
      exact typedAs result (h.compound_succ place source operator)
  | step target op before =>
    obtain ⟨t, result, place, -⟩ := typeOf_step typed
    exact typedAs result (h.step_succ place)
  | call name args =>
    obtain ⟨method, found, -, arity, checked, rfl⟩ := typeOf_call typed
    exact h.call_succ found arity checked (void rfl)
  | atomic op slot args =>
    obtain ⟨f, w, result, declared, element, named, -, checked⟩ := typeOf_atomic typed
    exact typedAs result (h.atomic_succ declared element named checked)
  | builtin func args =>
    obtain ⟨types, t, result, arity, given, builtin⟩ := typeOf_builtin typed
    exact typedAs result (h.builtin_succ arity given builtin)

theorem place_succ (typed : placeType c.descriptor s p = .ok t) :
    Gives c s.names (Eval.resolve c (n + 1) p) (·.Typed c.descriptor s.names t) := by
  cases p with
  | var name =>
    have declared := localType_eq_ok.mp typed
    rw [Scope.lookup?_eq] at declared
    exact .ret declared
  | field name =>
    obtain ⟨f, declared, -⟩ := scalarType_eq_ok.mp typed
    refine fun _ _ holds => andThen (binding_safe holds declared) ?_
    rintro ⟨i, b⟩ m' ⟨rfl, index, -⟩
    exact ret ⟨⟨index, typed⟩, holds⟩
  | element array index =>
    obtain ⟨position, elements⟩ := placeType_element typed
    exact h.indexed position elements fun _ => .ret elements

theorem updates_succ (checked : checkUpdates c.descriptor s es = .ok ())
    (void : ∀ {name args}, .call name args ∈ es → typeOf c.descriptor s (.call name args) = .ok none
      → VoidUpdate c.descriptor name) :
    Gives c s.names (Eval.evalAll c (n + 1) es) fun _ => True := by
  cases es with
  | nil => exact .ret trivial
  | cons e rest =>
    obtain ⟨⟨result, first⟩, others⟩ := checkUpdates_cons checked
    refine (h.expr first ?_).andThen fun _ _ => ?_
    · rintro name args rfl rfl
      exact void mem_cons_self first
    · have later := h.updates others fun found => void (mem_cons_of_mem e found)
      exact later.andThen fun _ _ => .ret trivial

/-! ## Calls -/

theorem calls_succ (found : c.descriptor.method? name = some method)
    (arity : args.length = method.params.length)
    (checked : checkArgs c.descriptor s method.params args = .ok ()) :
    Gives c s.names (Eval.call c (n + 1) name args) (·.map Value.type = method.ret) := by
  have entered : Eval.call c (n + 1) name args =
      (do let values ← Eval.evalAll c n args; Eval.invoke c n method values) := by
    simp only [Eval.call, found]
  rw [entered]
  exact (h.values (valueTypes_of_checkArgs arity checked)).andThen fun _ types =>
    h.invocation (mem_of_find?_eq_some found) types

end

theorem invocation_succ {names : ScopeFrame} {args : List Value}
    (checked : check c.descriptor = .ok ()) (h : Sound c n) (member : method ∈ c.descriptor.methods)
    (typed : args.map Value.type = method.params.map Param.type) :
    Gives c names (Eval.invoke c (n + 1) method args) (·.map Value.type = method.ret) := by
  obtain ⟨⟨s', body⟩, ends⟩ := checkMethod_eq_ok (forM_eq_ok checked member)
  intro callers m holds
  refine andThen (framed_safe (P := fun flow => flow.Fits method.ret false ∧
    (method.ret.isSome = true → flow ≠ .normal)) holds fun {m₁} holds₁ => ?_) ?_
  · rw [frameOf_types typed] at holds₁
    have inside : Inside c.descriptor (Stmt.flattenAll method.body) :=
      ⟨method, member, fun _ found => found⟩
    -- A method that returns a value does not end normally.
    have leaves : Ensures (Eval.block c n method.body) m₁
        (fun flow _ => method.ret.isSome = true → flow ≠ .normal) fun _ _ => True := by
      cases returns : method.ret.isSome with
      | false => exact (anything _ m₁).mono fun _ _ _ => nofun
      | true =>
        exact ((predicts c n).block_returns (ends returns) m₁).mono fun _ _ leaves _ => leaves
    exact ((h.blocks body inside holds₁).both leaves).mono fun _ _ ended =>
      ⟨⟨ended.1.1, ended.2⟩, _, ended.1.2⟩
  · rintro flow m₃ ⟨⟨fits, leaves⟩, holds₃⟩
    cases flow with
    | normal =>
      have void : method.ret = none := by
        cases returns : method.ret with
        | none => rfl
        | some t => exact absurd rfl (leaves (by simp [returns]))
      exact ret ⟨void.symm, holds₃⟩
    | broke | continued => cases fits
    | returned v => exact ret ⟨fits, holds₃⟩

/-! ## Statements -/

section Statements

variable {method : Method} {body : List Stmt}

/-- A statement that leaves the scope as it was. -/
theorem stays {ret : Option ScalarType} (h : Gives c s.names x (Flow.Fits ret inLoop))
    (holds : Holds c s.names callers m) : Safe c x m (Ended c s s ret inLoop callers) :=
  (h holds).mono fun _ _ ended => ⟨ended.1, [], ended.2, fun _ => rfl⟩

variable (h : Sound c n)
include h

theorem blocks_succ (checked : checkBody c.descriptor method inLoop p s body = .ok s')
    (inside : Inside c.descriptor (Stmt.flattenAll body)) :
    Gives c s.names (Eval.block c (n + 1) body) (Flow.Fits method.ret inLoop) := by
  refine fun _ _ holds => enclosed_safe holds ((h.body checked inside holds).mono ?_)
  rintro flow m₁ ⟨fits, inner, holds₁, -⟩
  exact ⟨fits, inner, holds₁⟩

theorem body_succ (checked : checkBody c.descriptor method inLoop p s body = .ok s')
    (inside : Inside c.descriptor (Stmt.flattenAll body)) (holds : Holds c s.names callers m) :
    Safe c (Eval.stmts c (n + 1) body) m (Ended c s s' method.ret inLoop callers) := by
  cases body with
  | nil =>
    cases checked
    exact ret ⟨trivial, [], holds, fun _ => rfl⟩
  | cons st rest =>
    obtain ⟨p', s₁, first, others⟩ := checkBody_cons checked
    obtain ⟨insideFirst, insideRest⟩ := inside.append
    refine andThen (h.statement first insideFirst holds) ?_
    rintro flow m₁ ⟨fits, inner, holds₁, normal⟩
    cases flow with
    | normal =>
      have names := normal rfl
      rw [names] at holds₁
      refine (h.body others insideRest holds₁).mono ?_
      rintro flow' m₂ ⟨fits', inner', holds₂, normal'⟩
      rw [← names, ← append_assoc] at holds₂ normal'
      exact ⟨fits', inner' ++ inner, holds₂, normal'⟩
    | broke | continued | returned v => exact ret ⟨fits, inner, holds₁, nofun⟩

/-- A block of its own: what it declares is not in sight after it. -/
theorem nested (checked : checkBody c.descriptor method inLoop p s.push body = .ok s')
    (inside : Inside c.descriptor (Stmt.flattenAll body)) :
    Gives c s.names (Eval.block c n body) (Flow.Fits method.ret inLoop) :=
  h.blocks (s := s.push) checked inside

theorem declare_succ {type : ScalarType} {init : Option Expr}
    (initialized : ∀ e, init = some e → typeOf c.descriptor s e = .ok (some type))
    (fresh : s.declares name = false) (holds : Holds c s.names callers m) :
    Safe c (Eval.stmt c (n + 1) (.declare name type init)) m
      (Ended c s (s.declare name type) method.ret inLoop callers) := by
  have declared : ∀ {m₁ : Machine} {v : Value}, v.type = type → Holds c s.names callers m₁ →
      Safe c (do declareLocal name v; return .normal) m₁
        (Ended c s (s.declare name type) method.ret inLoop callers) := by
    rintro m₁ v rfl holds₁
    refine andThen (declareLocal_safe holds₁ v) ?_
    intro _ m₂ holds₂
    exact ret ⟨trivial, [(name, v.type)], holds₂,
      fun _ => (Scope.names_declare fresh v.type).symm⟩
  cases init with
  | none => exact declared (Value.type_zero type) holds
  | some e =>
    refine andThen (h.value (initialized e rfl) holds) ?_
    rintro v m₁ ⟨-, holds₁⟩
    exact declared (Value.type_cast type v) holds₁

/-- An expression in the place of a statement; its value is dropped. -/
theorem exprStmt_succ {result : Option ScalarType} (typed : typeOf c.descriptor s e = .ok result) :
    Gives c s.names (Eval.stmt c (n + 1) (.expr e)) (Flow.Fits method.ret inLoop) := by
  by_cases called : ∃ name args, e = .call name args
  · obtain ⟨name, args, rfl⟩ := called
    obtain ⟨callee, found, -, arity, checked, -⟩ := typeOf_call typed
    exact (h.calls found arity checked).andThen fun _ _ => .ret trivial
  · have evaluated : Eval.stmt c (n + 1) (.expr e) =
        (do let _ ← Eval.eval c n e; return .normal) := by
      cases e <;> first | rfl | exact absurd ⟨_, _, rfl⟩ called
    rw [evaluated]
    refine (h.expr typed ?_).andThen fun _ _ => .ret trivial
    rintro name args rfl
    exact absurd ⟨name, args, rfl⟩ called

theorem forStmt_succ {cond : Option Expr}
    (checked : checkStmt c.descriptor method inLoop p s (.forLoop init cond update body) = .ok s')
    (inside : Inside c.descriptor (Stmt.forLoop init cond update body).flatten) :
    Gives c s.names (Eval.stmt c (n + 1) (.forLoop init cond update body))
      (Flow.Fits method.ret inLoop) := by
  obtain ⟨inner, ⟨p₀, started⟩, condition, updates, ⟨p₁, s₁, rounds⟩, -⟩ :=
    checkStmt_forLoop checked
  obtain ⟨insideInit, insideBody⟩ := inside.tail.append
  have void : ∀ {name args}, .call name args ∈ update →
      typeOf c.descriptor inner (.call name args) = .ok none →
      VoidUpdate c.descriptor name := by
    intro name args found typed
    obtain ⟨callee, declared, -, -, -, ret⟩ := typeOf_call typed
    obtain ⟨owner, member, owned⟩ := inside
    exact ⟨⟨owner, member, init, cond, update, body, args, owned _ mem_cons_self, found⟩,
      callee, declared, ret.symm⟩
  refine fun _ _ holds => enclosed_safe holds (andThen (h.initializers started insideInit holds) ?_)
  intro _ m₁ holds₁
  refine (h.forRounds condition updates void rounds insideBody holds₁).mono ?_
  rintro flow m₂ ⟨fits, holds₂⟩
  obtain ⟨grown, names⟩ := checkInits_names started
  rw [names] at holds₂
  exact ⟨fits.weaken inLoop, grown, holds₂⟩

theorem statement_succ (checked : checkStmt c.descriptor method inLoop p s st = .ok s')
    (inside : Inside c.descriptor st.flatten) (holds : Holds c s.names callers m) :
    Safe c (Eval.stmt c (n + 1) st) m (Ended c s s' method.ret inLoop callers) := by
  cases st with
  | declare name type init =>
    obtain ⟨initialized, fresh, rfl⟩ := checkStmt_declare checked
    exact h.declare_succ initialized fresh holds
  | expr e =>
    obtain ⟨⟨result, typed⟩, rfl⟩ := checkStmt_expr checked
    exact stays (h.exprStmt_succ typed) holds
  | branch cond thenBody elseBody =>
    obtain ⟨condition, ⟨p₁, s₁, first⟩, ⟨p₂, s₂, second⟩, rfl⟩ := checkStmt_branch checked
    obtain ⟨insideThen, insideElse⟩ := inside.tail.append
    exact stays ((h.value condition).decides (h.nested first insideThen)
      (h.nested second insideElse)) holds
  | whileLoop cond body =>
    obtain ⟨condition, ⟨p₁, s₁, rounds⟩, rfl⟩ := checkStmt_whileLoop checked
    exact stays ((h.whileRounds condition rounds inside.tail).mono fun _ fits =>
      fits.weaken inLoop) holds
  | doWhile body cond =>
    obtain ⟨condition, ⟨p₁, s₁, rounds⟩, rfl⟩ := checkStmt_doWhile checked
    exact stays ((h.doRounds condition rounds inside.tail).mono fun _ fits =>
      fits.weaken inLoop) holds
  | forLoop init cond update body =>
    obtain ⟨-, -, -, -, -, rfl⟩ := checkStmt_forLoop checked
    exact stays (h.forStmt_succ checked inside) holds
  | breakLoop =>
    obtain ⟨loop, rfl⟩ := checkStmt_break checked
    exact stays (.ret loop) holds
  | continueLoop =>
    obtain ⟨loop, rfl⟩ := checkStmt_continue checked
    exact stays (.ret loop) holds
  | ret value =>
    obtain ⟨returned, rfl⟩ := checkStmt_ret checked
    cases value with
    | none =>
      exact stays ((h.optional (o := none) (t := .int) nofun).andThen fun _ type =>
        .ret (type.trans returned.symm)) holds
    | some e =>
      obtain ⟨t, typed, ret⟩ := returned
      refine stays ((h.optional (t := t) ?_).andThen fun _ type => .ret (type.trans ret.symm)) holds
      rintro e' ⟨⟩
      exact typed
  | block body =>
    obtain ⟨⟨p₁, s₁, checked⟩, rfl⟩ := checkStmt_block checked
    exact stays (h.nested checked inside.tail) holds

theorem initializers_succ (checked : checkInits c.descriptor method inLoop p s init = .ok s')
    (inside : Inside c.descriptor (Stmt.flattenAll init)) (holds : Holds c s.names callers m) :
    Safe c (Eval.inits c (n + 1) init) m fun _ m' => Holds c s'.names callers m' := by
  cases init with
  | nil =>
    cases checked
    exact ret holds
  | cons st rest =>
    obtain ⟨initializer, p', s₁, first, others⟩ := checkInits_cons checked
    obtain ⟨insideFirst, insideRest⟩ := inside.append
    have ends := initializer_ends (c := c) (n := n) initializer m
    refine andThen ((h.statement first insideFirst holds).both ends) ?_
    rintro flow m₁ ⟨⟨-, inner, holds₁, normal⟩, ended⟩
    rw [normal ended] at holds₁
    exact h.initializers others insideRest holds₁

/-! ## Loops -/

theorem forRounds_succ {cond : Option Expr}
    (condition : ∀ e, cond = some e → typeOf c.descriptor s e = .ok (some .boolean))
    (updates : checkUpdates c.descriptor s update = .ok ())
    (void : ∀ {name args}, .call name args ∈ update → typeOf c.descriptor s (.call name args) = .ok
      none → VoidUpdate c.descriptor name)
    (rounds : checkBody c.descriptor method true p s.push body = .ok s')
    (inside : Inside c.descriptor (Stmt.flattenAll body)) :
    Gives c s.names (Eval.forLoop c (n + 1) cond update body) (Flow.Fits method.ret false) := by
  have round : Gives c s.names (Eval.block c n body >>= afterRound
      (Eval.evalAll c n update >>= fun _ => Eval.forLoop c n cond update body))
      (Flow.Fits method.ret false) :=
    (h.nested rounds inside).round ((h.updates updates void).andThen fun _ _ =>
      h.forRounds condition updates void rounds inside)
  cases cond with
  | none => exact round
  | some e => exact (h.value (condition e rfl)).decides round (.ret trivial)

end Statements

end Sound

/-- A checked kernel is sound for any number of steps. -/
theorem sound (checked : check c.descriptor = .ok ()) (n) : Sound c n := by
  induction n with
  | zero =>
    constructor <;> intros <;> first
      | exact outOfSteps .exhausted
      | exact fun _ _ _ => outOfSteps .exhausted
  | succ n h =>
    exact {
      expr := h.expr_succ
      place := h.place_succ
      optional := fun {s o t} typed => by
        cases o with
        | none => exact .ret rfl
        | some e => exact (h.value (typed e rfl)).andThen fun _ type => .ret (congrArg some type)
      values := fun {s args types} typed => by
        cases args with
        | nil =>
          cases typed
          exact .ret rfl
        | cons e rest =>
          obtain ⟨t, ts, rfl, first, others⟩ := valueTypes_cons typed
          exact (h.value first).andThen fun _ type => (h.values others).andThen fun _ types =>
            .ret (congrArg₂ List.cons type types)
      updates := h.updates_succ
      operands := fun {s op w args} checked => by
        cases args with
        | nil => exact .ret trivial
        | cons e rest =>
          obtain ⟨first, others⟩ := checkOperands_cons checked
          refine (h.value first).andThen fun v type => ?_
          obtain ⟨i, integer⟩ := Value.integer_of_slot type
          have accepted : operand op v = pure i := by simp [operand, integer]
          rw [accepted, pure_bind]
          exact (h.operands others).andThen fun _ _ => .ret trivial
      calls := h.calls_succ
      invocation := h.invocation_succ checked
      blocks := h.blocks_succ
      body := h.body_succ
      statement := h.statement_succ
      whileRounds := fun condition rounds inside =>
        (h.value condition).decides
          ((h.nested rounds inside).round (h.whileRounds condition rounds inside)) (.ret trivial)
      doRounds := fun condition rounds inside =>
        (h.nested rounds inside).round
          ((h.value condition).decides (h.doRounds condition rounds inside) (.ret trivial))
      initializers := h.initializers_succ
      forRounds := h.forRounds_succ }

end Eval

end GridKernel
