import GridKernel.Proofs.Typing.Tasks
import GridKernel.Target.Body

/-!
# What the translation asks

The translation asks for types where it needs them: of an operand that goes to a temporary, of the
target of a compound assignment, of the slots of an atomic operation. All that can fail in it is
such a question. The questions, and the scope each is asked in, follow from the statement and the
scope alone; translating is asking them in order up to the first that has no answer.
-/

namespace GridKernel.Target

open List

/-- What a question is about. -/
inductive Subject where
  | value (e : GridKernel.Expr)
  | place (p : Place GridKernel.Expr)
  /-- The elements of an array. -/
  | array (name : String)
  /-- The slots that an atomic operation is on. -/
  | slots (op : AtomicOp) (name : String)

namespace Subject

/-- The answer: a type. -/
def type (d : Descriptor) (s : Scope) : Subject → Except TypeFault ScalarType
  | value e => Typing.valueType d s e
  | place p => Typing.placeType d s p
  | array name => Typing.arrayType d name
  | slots op name => (Typing.slotWidth d op name).map fun found => found.2.scalar

def ask (d : Descriptor) (s : Scope) (q : Subject) : Except TypeFault Unit :=
  (q.type d s).map fun _ => ()

/-- The subject is one of these expressions, or what one of them is on. -/
def Among (nodes : List GridKernel.Expr) : Subject → Prop
  | value e => e ∈ nodes
  | place target => ∃ op v, .assign target op v ∈ nodes
  | array name => ∃ index op before, .step (.element name index) op before ∈ nodes
  | slots op name => ∃ index args, .atomic op ⟨name, index⟩ args ∈ nodes

end Subject

/-- The type of a value that goes to a temporary. -/
def kept (hoist : Bool) (e : GridKernel.Expr) : List Subject := if hoist then [.value e] else []

/-- An increment of an array element whose index has effects keeps the element. -/
def stepAsks : Place GridKernel.Expr → List Subject
  | .element array index => if index.hasEffects then [.array array] else []
  | _ => []

/-- The slot's index counts among the operands. -/
def slotHazard (slot : SlotRef GridKernel.Expr) (args : List GridKernel.Expr) : Bool :=
  hazard (slot.index.toList ++ args)

mutual

/-- What the translation of an expression asks, in order. -/
def asks : GridKernel.Expr → List Subject
  | .literal _ | .var _ | .field _ | .length _ => []
  | .element _ index => asks index
  | .binary op lhs rhs =>
    if op.isShortCircuit then asks lhs ++ asks rhs
    else [.value lhs]
      ++ ((asks lhs ++ kept (hazard [lhs, rhs] && !lhs.isLiteral) lhs) ++ asks rhs)
  | .unary _ operand => asks operand
  | .conditional cond thenValue elseValue => asks cond ++ (asks thenValue ++ asks elseValue)
  | .cast _ value _ => [.value value] ++ asks value
  | .assign target none value =>
    targetAsks (fun index => hazard [index, value] && !index.isLiteral) target
      ++ (asks value ++ kept (assigns target value) value)
  | .assign target (some _) value =>
    [.place target]
      ++ (targetAsks (fun _ => false) target ++ (kept value.hasEffects value ++ asks value))
  | .step target _ _ => targetAsks (fun _ => false) target ++ stepAsks target
  | .call _ args => operandsAsk (hazard args) args
  | .atomic op slot args =>
    [.slots op slot.field] ++ (slotAsks args slot ++ operandsAsk (slotHazard slot args) args)
  | .builtin _ args => (args.head?.map Subject.value).toList ++ operandsAsk (hazard args) args

/-- What is asked about the index of a target, which may have to be kept. -/
def targetAsks (hoist : GridKernel.Expr → Bool) : Place GridKernel.Expr → List Subject
  | .element _ index => asks index ++ kept (hoist index) index
  | .var _ | .field _ => []

def slotAsks (args : List GridKernel.Expr) : SlotRef GridKernel.Expr → List Subject
  | ⟨_, index⟩ => indexAsks args index

def indexAsks (args : List GridKernel.Expr) : Option GridKernel.Expr → List Subject
  | none => []
  | some index =>
    asks index ++ kept (hazard (index :: args) && !args.isEmpty && !index.isLiteral) index

def operandsAsk (hoist : Bool) : List GridKernel.Expr → List Subject
  | [] => []
  | [e] => asks e
  | e :: e' :: rest =>
    (asks e ++ kept (hoist && !e.isLiteral) e) ++ operandsAsk hoist (e' :: rest)

end

/-! ## Translating is asking -/

/-- What is left of an answer if only its existence matters. -/
def answered {Q : Type} (type : Q → Except TypeFault ScalarType) (q : Q) : Except TypeFault Unit :=
  (type q).map fun _ => ()

/-- The computation asks in order, up to the first question without an answer, and then fails with
the fault found there. Otherwise it ends with a result that satisfies `post`. Its temporaries have
the type `int`, or types that answers `may` be. -/
def Asking {Q α : Type} (type : Q → Except TypeFault ScalarType) (may : ScalarType → Prop)
    (x : Emit α) (questions : List Q) (post : α → Prop) : Prop :=
  (∀ q ∈ questions, ∀ t, type q = .ok t → may t) → ∀ temps, match x temps with
    | .ok (a, temps') => forM questions (answered type) = .ok () ∧ post a ∧
        ∀ t ∈ temps', t ∈ temps ∨ t = .int ∨ may t
    | .error fault => forM questions (answered type) = .error fault

namespace Asking

variable {α β : Type} {type : Q → Except TypeFault ScalarType} {may : ScalarType → Prop}
  {x : Emit α} {l : List Q}

theorem ret (h : P a) : Asking type may (pure a) [] P :=
  fun _ _ => ⟨rfl, h, fun _ => .inl⟩

theorem andThen (first : Asking type may x l P)
    (next : ∀ a, P a → Asking type may (f a) l' R) : Asking type may (x >>= f) (l ++ l') R := by
  intro answers temps
  obtain ⟨here, there⟩ := forall_mem_append.mp answers
  have started := first here temps
  have parts : (x >>= f) temps = x temps >>= fun r => f r.1 r.2 := rfl
  rw [forM_append, parts]
  cases ran : x temps with
  | error fault =>
    rw [ran] at started
    simp only at started
    rw [started]
    rfl
  | ok r =>
    rw [ran] at started
    obtain ⟨found, holds, early⟩ := started
    have later := next r.1 holds there r.2
    have rest : (Except.ok r >>= fun r => f r.1 r.2) = f r.1 r.2 := rfl
    rw [found, rest]
    cases ended : f r.1 r.2 with
    | error fault => rwa [ended] at later
    | ok r' =>
      rw [ended] at later
      obtain ⟨others, holds', late⟩ := later
      exact ⟨others, holds', fun t member => (late t member).elim (early t) .inr⟩

/-- What comes after asks nothing. -/
theorem ends (first : Asking type may x l P) (next : ∀ a, P a → Asking type may (f a) [] R) :
    Asking type may (x >>= f) l R := by
  have all := first.andThen next
  rwa [append_nil] at all

theorem allocates (known : t = .int ∨ may t) : Asking type may (fresh t) [] fun _ => True := by
  refine fun _ temps => ⟨rfl, trivial, fun t' member => ?_⟩
  rcases mem_append.mp member with member | member
  · exact .inl member
  · exact .inr (mem_singleton.mp member ▸ known)

theorem types (same : type q = r.map g) : Asking type may (typed r) [q] fun a => may (g a) := by
  intro answers temps
  rw [forM_cons, answered, same]
  cases r with
  | error fault => rfl
  | ok a => exact ⟨rfl, answers q mem_cons_self _ same, fun _ => .inl⟩

/-- The questions of a part, asked in some place. -/
theorem placed {place : Q → S} {type : S → Except TypeFault ScalarType}
    (h : Asking (fun q => type (place q)) may x l P) : Asking type may x (l.map place) P := by
  intro answers temps
  have ran := h (forall_mem_map.mp answers) temps
  rw [forM_map]
  exact ran

end Asking

variable {q : Subject} {e : GridKernel.Expr}

section Expressions

variable {d : Descriptor} {s : Scope} {α : Type} {may : ScalarType → Prop} {l : List Subject}

/-- The computation asks these questions, whatever it ends with. -/
def Asks (d : Descriptor) (s : Scope) (may : ScalarType → Prop) (x : Emit α) (l : List Subject) :
    Prop :=
  Asking (Subject.type d s) may x l fun _ => True

/-- A question whose answer is the type that is found. -/
theorem type_asks (same : q.type d s = r) : Asking (Subject.type d s) may (typed r) [q] may := by
  refine .types (g := id) ?_
  rw [same]
  cases r <;> rfl

theorem value_asks (e) :
    Asking (Subject.type d s) may (typed (Typing.valueType d s e)) [.value e] may := type_asks rfl

theorem slots_asks (op name) :
    Asking (Subject.type d s) may (typed (Typing.slotWidth d op name)) [.slots op name]
      fun found => may found.2.scalar := .types rfl

theorem keep_asks (asked : Asks d s may emits l) :
    Asks d s may (keep d s hoist e emits) (l ++ kept hoist e) := by
  refine Asking.andThen asked fun r _ => ?_
  cases hoist with
  | false => exact .ret trivial
  | true =>
    refine (value_asks e).ends fun type known => ?_
    exact (Asking.allocates (.inr known)).ends fun t _ => .ret trivial

theorem store_asks {value : GridKernel.Expr} :
    Asks d s may (store d s conflict value pre target v) (kept conflict value) := by
  cases conflict with
  | false => exact .ret trivial
  | true =>
    refine (value_asks value).ends fun type known => ?_
    exact (Asking.allocates (.inr known)).ends fun t _ => .ret trivial

theorem update_asks {value : GridKernel.Expr} (place : may t) (asked : Asks d s may emits l) :
    Asks d s may (update d s op t value emits pre target)
      (kept value.hasEffects value ++ l) := by
  unfold update
  cases value.hasEffects with
  | false =>
    refine asked.ends fun r _ => ?_
    cases native : isNativeCompound op t <;> exact .ret trivial
  | true =>
    refine Asking.andThen (l := []) (.allocates (.inr place)) fun old _ => ?_
    refine (value_asks value).andThen fun type known => ?_
    refine asked.ends fun r _ => ?_
    exact (Asking.allocates (.inr known)).ends fun new _ => .ret trivial

theorem stepElement_asks {type : ScalarType} {array : String} (elements : may type) :
    Asks d s may (stepElement op before type array index) [] := by
  refine (Asking.allocates (.inl rfl)).ends fun i _ => ?_
  cases before with
  | true => exact .ret trivial
  | false => exact (Asking.allocates (.inr elements)).ends fun old _ => .ret trivial

theorem atomicCall_asks {pointer : Expr} (width : may w.scalar) :
    Asks d s may (atomicCall op w pointer args pre) [] := by
  unfold atomicCall
  split
  · exact (Asking.allocates (.inr width)).ends fun t _ => .ret trivial
  · exact .ret trivial
  · exact .ret trivial

mutual

/-- By induction on expressions. -/
theorem expr_asks : ∀ e : GridKernel.Expr, Asks d s may (expr d s e) (asks e)
  | .literal _ | .var _ | .field _ | .length _ => .ret trivial
  | .element _ index => (expr_asks index).ends fun _ _ => .ret trivial
  | .binary op lhs rhs => by
    rw [expr, asks]
    cases op.isShortCircuit with
    | true => exact (expr_asks lhs).andThen fun _ _ => (expr_asks rhs).ends fun _ _ => .ret trivial
    | false =>
      refine (value_asks lhs).andThen fun _ _ => (keep_asks (expr_asks lhs)).andThen fun _ _ => ?_
      exact (expr_asks rhs).ends fun _ _ => .ret trivial
  | .unary _ operand => (expr_asks operand).ends fun _ _ => .ret trivial
  | .conditional cond thenValue elseValue => by
    refine (expr_asks cond).andThen fun _ _ => (expr_asks thenValue).andThen fun _ _ => ?_
    exact (expr_asks elseValue).ends fun _ _ => .ret trivial
  | .cast _ value _ =>
    (value_asks value).andThen fun _ _ => (expr_asks value).ends fun _ _ => .ret trivial
  | .assign target none value => assign_asks (expr_asks value) target
  | .assign target (some op) value => by
    refine Asking.andThen (type_asks rfl) fun t known => (place_asks target).andThen fun _ _ => ?_
    exact update_asks known (expr_asks value)
  | .step target _ _ => step_asks target
  | .call _ args => (operands_ask args).ends fun _ _ => .ret trivial
  | .atomic op slot args =>
    (slots_asks op slot.field).andThen fun _ width =>
      (slot_asks args slot (operands_ask args)).ends fun _ _ => atomicCall_asks width
  | .builtin func args => by
    have call : ∀ t, Asks d s may (inOrder d s (hazard args) (operands d s args)
        >>= fun p => pure (builtin func t p.2 p.1)) (operandsAsk (hazard args) args) :=
      fun t => (operands_ask args).ends fun _ _ => .ret trivial
    cases args with
    | nil => exact call none
    | cons e rest => exact (value_asks e).andThen fun t _ => call (some t)

theorem assign_asks {value : GridKernel.Expr} {conflict : Bool} {emits : Emit Emitted}
    {l : List Subject} (asked : Asks d s may emits l) : ∀ target : Place GridKernel.Expr,
    Asks d s may (assign d s value conflict emits target)
      (targetAsks (fun index => hazard [index, value] && !index.isLiteral) target
        ++ (l ++ kept conflict value))
  | .var _ | .field _ => asked.andThen fun _ _ => store_asks
  | .element _ index =>
    (keep_asks (expr_asks index)).andThen fun _ _ => asked.andThen fun _ _ => store_asks

theorem place_asks {effects : Bool} : ∀ target : Place GridKernel.Expr,
    Asks d s may (place d s effects target) (targetAsks (fun _ => false) target)
  | .var _ | .field _ => .ret trivial
  | .element _ index => by
    refine (expr_asks index).andThen fun _ _ => ?_
    split
    · exact (Asking.allocates (.inl rfl)).ends fun _ _ => .ret trivial
    · exact .ret trivial

theorem step_asks {op : StepOp} {before : Bool} : ∀ target : Place GridKernel.Expr,
    Asks d s may (step d s op before target) (targetAsks (fun _ => false) target ++ stepAsks target)
  | .var _ | .field _ => .ret trivial
  | .element array index => by
    rw [targetAsks, kept, append_assoc]
    refine (expr_asks index).andThen fun _ _ => ?_
    rw [stepAsks]
    cases index.hasEffects with
    | true => exact Asking.ends (type_asks rfl) fun _ elements => stepElement_asks elements
    | false => exact .ret trivial

theorem slot_asks {emits : List (GridKernel.Expr × Emit Emitted)} {l : List Subject}
    (args : List GridKernel.Expr) : ∀ slot : SlotRef GridKernel.Expr,
    Asks d s may (inOrder d s (slotHazard slot args) emits) l →
      Asks d s may (slotOperands d s args emits slot) (slotAsks args slot ++ l)
  | ⟨name, index⟩, asked => slotIndex_asks args name index asked

theorem slotIndex_asks {emits : List (GridKernel.Expr × Emit Emitted)} {l : List Subject}
    (args : List GridKernel.Expr) (name : String) : ∀ index : Option GridKernel.Expr,
    Asks d s may (inOrder d s (slotHazard ⟨name, index⟩ args) emits) l →
      Asks d s may (slotIndex d s args emits name index) (indexAsks args index ++ l)
  | none, asked => asked.ends fun _ _ => .ret trivial
  | some index, asked =>
    (keep_asks (expr_asks index)).andThen fun _ _ => asked.ends fun _ _ => .ret trivial

theorem operands_ask {hoist : Bool} : ∀ args : List GridKernel.Expr,
    Asks d s may (inOrder d s hoist (operands d s args)) (operandsAsk hoist args)
  | [] => .ret trivial
  | [e] => (expr_asks e).ends fun _ _ => .ret trivial
  | e :: e' :: rest =>
    (keep_asks (expr_asks e)).andThen fun _ _ =>
      (operands_ask (e' :: rest)).ends fun _ _ => .ret trivial

end

end Expressions

/-! ## What is asked about is part of the expression -/

theorem Subject.Among.mono (h : q.Among nodes) (inside : nodes ⊆ nodes') : q.Among nodes' := by
  cases q with
  | value e => exact inside h
  | place target => exact h.imp fun _ => .imp fun _ found => inside found
  | array name => exact h.imp fun _ => .imp fun _ => .imp fun _ found => inside found
  | slots op name => exact h.imp fun _ => .imp fun _ found => inside found

theorem mem_kept (h : q ∈ kept hoist e) : q = .value e := by
  cases hoist with
  | false => cases h
  | true => exact mem_singleton.mp h

theorem mem_operandsAsk : ∀ {args : List GridKernel.Expr},
    q ∈ operandsAsk hoist args → ∃ e ∈ args, q = .value e ∨ q ∈ asks e
  | [e], h => ⟨e, mem_cons_self, .inr h⟩
  | e :: _ :: _, h => by
    rcases mem_append.mp h with here | later
    · exact ⟨e, mem_cons_self, (mem_append.mp here).symm.imp_left mem_kept⟩
    · exact (mem_operandsAsk later).imp fun _ found => ⟨mem_cons_of_mem _ found.1, found.2⟩

theorem mem_targetAsks {hoist : GridKernel.Expr → Bool} {target : Place GridKernel.Expr}
    (h : q ∈ targetAsks hoist target) : ∃ e ∈ target.parts, q = .value e ∨ q ∈ asks e := by
  cases target with
  | var | field => cases h
  | element array index =>
    exact ⟨index, mem_cons_self, (mem_append.mp h).symm.imp_left mem_kept⟩

theorem mem_slotAsks (h : q ∈ slotAsks args slot) :
    ∃ e ∈ slot.index.toList, q = .value e ∨ q ∈ asks e := by
  obtain ⟨name, index⟩ := slot
  cases index with
  | none => cases h
  | some index =>
    exact ⟨index, mem_cons_self, (mem_append.mp h).symm.imp_left mem_kept⟩

/-- A question is about the expression or one of its parts, or is asked for a part. -/
theorem asks_cases (h : q ∈ asks e) : q.Among [e] ∨ ∃ b ∈ e.parts, q = .value b ∨ q ∈ asks b := by
  cases e with
  | literal | var | field | length => simp [asks] at h
  | element _ e | unary _ e => exact .inr ⟨e, mem_cons_self, .inr h⟩
  | cast _ e => exact .inr ⟨e, mem_cons_self, mem_cons.mp h⟩
  | call name args => exact .inr (mem_operandsAsk h)
  | binary op lhs rhs => grind [asks, Expr.parts, mem_kept]
  | conditional cond thenValue elseValue => grind [asks, Expr.parts]
  | assign target op value =>
    cases op with
    | none => grind [asks, Expr.parts, mem_targetAsks, mem_kept]
    | some op =>
      have place : (Subject.place target).Among [.assign target (some op) value] :=
        ⟨some op, value, mem_cons_self⟩
      grind [asks, Expr.parts, mem_targetAsks, mem_kept]
  | step target op before =>
    rcases mem_append.mp h with asked | stepped
    · exact .inr (mem_targetAsks asked)
    cases target with
    | var | field => cases stepped
    | element array index =>
      rw [stepAsks] at stepped
      split at stepped
      · rw [mem_singleton.mp stepped]
        exact .inl ⟨index, op, before, mem_cons_self⟩
      · cases stepped
  | atomic op slot args =>
    have slots : (Subject.slots op slot.field).Among [.atomic op slot args] :=
      ⟨slot.index, args, mem_cons_self⟩
    grind [asks, Expr.parts, mem_slotAsks, mem_operandsAsk]
  | builtin func args =>
    rcases mem_append.mp h with first | asked
    · cases args with
      | nil => cases first
      | cons e rest => exact .inr ⟨e, mem_cons_self, .inl (mem_singleton.mp first)⟩
    · exact .inr (mem_operandsAsk asked)

theorem asks_among (e q) (h : q ∈ asks e) : q.Among e.nodes := by
  have down : ∀ a, q = .value a ∨ q ∈ asks a →
      q.Among [a] ∨ ∃ b ∈ a.parts, q = .value b ∨ q ∈ asks b := by
    rintro a (rfl | asked)
    · exact .inl mem_cons_self
    · exact asks_cases asked
  obtain ⟨b, inside, about⟩ := Expr.nodes_listed.exists_mem down (.inr h)
  exact about.mono (cons_subset.mpr ⟨inside, nil_subset _⟩)

/-! ## Statements -/

/-- A question that comes up at the statement with an ordinal, in the translation's scope there. -/
structure Question where
  position : Nat
  scope : Scope
  subject : Subject

def Question.ask (d : Descriptor) (q : Question) : Except TypeFault Unit := q.subject.ask d q.scope

def Question.type (d : Descriptor) (q : Question) : Except TypeFault ScalarType :=
  q.subject.type d q.scope

/-- The questions about expressions of one statement. -/
def asksAt (p : Nat) (s : Scope) (es : List GridKernel.Expr) : List Question :=
  (es.flatMap asks).map (Question.mk p s)

mutual

/-- What the translation of a statement asks, in order. -/
def stmtAsks (p : Nat) (s : Scope) : GridKernel.Stmt → List Question
  | .declare _ _ init => asksAt p s init.toList
  | .expr e => asksAt p s [e]
  | .branch cond thenBody elseBody =>
    asksAt p s [cond] ++ (bodyAsks (p + 1) s.push thenBody
      ++ bodyAsks (p + 1 + Stmt.count thenBody) s.push elseBody)
  | .whileLoop cond body => asksAt p s [cond] ++ bodyAsks (p + 1) s.push body
  | .doWhile body cond => bodyAsks (p + 1) s.push body ++ asksAt p s [cond]
  | .forLoop init cond update body =>
    let inner := Stmt.scopeAfterAll s.push init
    bodyAsks (p + 1) s.push init ++ (asksAt p inner cond.toList ++ (asksAt p inner update
      ++ bodyAsks (p + 1 + Stmt.count init) inner.push body))
  | .ret value => asksAt p s value.toList
  | .breakLoop | .continueLoop => []
  | .block body => bodyAsks (p + 1) s.push body

def bodyAsks (p : Nat) (s : Scope) : List GridKernel.Stmt → List Question
  | [] => []
  | st :: rest => stmtAsks p s st ++ bodyAsks (p + st.flatten.length) (st.scopeAfter s) rest

end

/-- What the translation of a method asks. -/
def methodAsks (m : Method) : List Question := bodyAsks 0 (.ofMethod m) m.body

variable {may : ScalarType → Prop}

theorem exprAt_asks (p s e) :
    Asking (Question.type d) may (expr d s e) (asksAt p s [e]) fun _ => True := by
  have asked : Asks d s may (expr d s e) (asks e ++ []) := by
    rw [append_nil]
    exact expr_asks e
  exact Asking.placed asked

theorem inlineOption_asks (p s e) :
    Asking (Question.type d) may (inlineOption d s e) (asksAt p s e.toList) fun _ => True := by
  cases e with
  | none => exact .ret trivial
  | some e => exact (exprAt_asks p s e).ends fun _ _ => .ret trivial

theorem inlineAll_asks (p s es) :
    Asking (Question.type d) may (inlineAll d s es) (asksAt p s es) fun _ => True := by
  have asked : Asks d s may (inlineAll d s es) (es.flatMap asks) := by
    induction es with
    | nil => exact .ret trivial
    | cons e rest ih =>
      rw [flatMap_cons]
      exact Asking.andThen (expr_asks e) fun _ _ => Asking.ends ih fun _ _ => .ret trivial
  exact Asking.placed asked

mutual

/-- By induction on statements; the translation ends in the scope after the statement. -/
theorem stmt_asks (p : Nat) (s : Scope) : ∀ st : GridKernel.Stmt,
    Asking (Question.type d) may (stmt d s st) (stmtAsks p s st) fun r => r.2 = st.scopeAfter s
  | .declare _ _ none => .ret rfl
  | .declare _ _ (some init) => (exprAt_asks p s init).ends fun _ _ => .ret rfl
  | .expr e => (exprAt_asks p s e).ends fun _ _ => .ret rfl
  | .branch cond thenBody elseBody => by
    refine (exprAt_asks p s cond).andThen fun _ _ => ?_
    refine (body_asks (p + 1) s.push thenBody).andThen fun _ _ => ?_
    exact (body_asks _ s.push elseBody).ends fun _ _ => .ret rfl
  | .whileLoop cond body => by
    refine (exprAt_asks p s cond).andThen fun _ _ => ?_
    exact (body_asks (p + 1) s.push body).ends fun _ _ => .ret rfl
  | .doWhile body cond => by
    refine (body_asks (p + 1) s.push body).andThen fun _ _ => ?_
    exact (exprAt_asks p s cond).ends fun _ _ => .ret rfl
  | .forLoop init cond update body => by
    refine (body_asks (p + 1) s.push init).andThen fun first after => ?_
    obtain ⟨stmts, inner⟩ := first
    cases after
    refine (inlineOption_asks p _ cond).andThen fun _ _ => ?_
    refine (inlineAll_asks p _ update).andThen fun _ _ => ?_
    refine (body_asks _ _ body).ends fun _ _ => ?_
    cases LoopInit.ofStmts stmts <;> exact .ret rfl
  | .breakLoop | .continueLoop | .ret none => .ret rfl
  | .ret (some value) => (exprAt_asks p s value).ends fun _ _ => .ret rfl
  | .block body => (body_asks (p + 1) s.push body).ends fun _ _ => .ret rfl

theorem body_asks (p : Nat) (s : Scope) : ∀ stmts : List GridKernel.Stmt,
    Asking (Question.type d) may (body d s stmts) (bodyAsks p s stmts)
      fun r => r.2 = Stmt.scopeAfterAll s stmts
  | [] => .ret rfl
  | st :: rest => by
    refine (stmt_asks p s st).andThen fun first after => ?_
    obtain ⟨stmts, s'⟩ := first
    cases after
    exact (body_asks _ (st.scopeAfter s) rest).ends fun _ after => .ret after

end

/-- A method is translated unless a question has no answer, and then that is the fault. -/
theorem methodBody_asks (d m) :
    (methodBody d m).map (fun _ => ()) = forM (methodAsks m) (Question.ask d) := by
  have any : Asking (Question.type d) (fun _ => True) _ _ _ := body_asks 0 (.ofMethod m) m.body
  have asked := any (fun _ _ _ _ => trivial) []
  unfold methodBody methodAsks
  change Except.map _ (body d (.ofMethod m) m.body [] >>= _) = _
  cases ran : body d (.ofMethod m) m.body [] with
  | error fault =>
    rw [ran] at asked
    exact asked.symm
  | ok r =>
    rw [ran] at asked
    exact asked.1.symm

/-- Temporaries have the type `int` or the type that answers a question. -/
theorem methodBody_temps (emits : methodBody d m = .ok b)
    (answers : ∀ q ∈ methodAsks m, ∀ t, q.type d = .ok t → may t) :
    ∀ t ∈ b.temps, t = .int ∨ may t := by
  obtain ⟨r, ran, finished⟩ := Outcome.bind_eq_ok.mp emits
  cases finished
  have asked := body_asks 0 (.ofMethod m) m.body answers []
  have started : body d (.ofMethod m) m.body [] = .ok r := ran
  rw [started] at asked
  exact fun t member => (asked.2.2 t member).resolve_left not_mem_nil

end GridKernel.Target
