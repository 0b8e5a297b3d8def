import GridKernel.Proofs.Lang.Parts
import GridKernel.Proofs.Target.Paths
import GridKernel.Proofs.Target.Statements
import GridKernel.Target.Program

/-!
# Types in target programs

`Expr.kind?` gives an expression of a target program its type in the program that it stands in, from
the declarations that the program makes: of the members of the kernel's state, of the helpers, of the
function's temporaries and of the locals in sight. It gives none where something is not declared,
where a call does not pass what the function takes, and where a temporary is assigned a value of
another type. Elsewhere C's conversions are allowed.
-/

namespace GridKernel.Target

open List Option Expr

/-- What the value of a target expression is. -/
inductive Kind where
  | scalar (type : ScalarType)
  /-- A number of work-items, as the device counts them. -/
  | size
  /-- The address of a slot. -/
  | slot (width : SlotWidth)
  | void
  deriving DecidableEq, Repr

def Kind.ofResult : Option ScalarType → Kind
  | some t => .scalar t
  | none => .void

/-- The value of a field. -/
def Member.kind? : Member → Option Kind
  | .scalar type _ => some (.scalar type)
  | .slots _ width _ => some (.slot width)
  | _ => none

def Member.lengthKind? : Member → Option Kind
  | .length _ => some (.scalar .int)
  | _ => none

/-- The elements of an array. -/
def Member.elementKind? : Member → Option Kind
  | .array _ type _ => some (.scalar type)
  | _ => none

/-- The addresses of the slots of a field. -/
def Member.addressKind? : Member → Option Kind
  | .slots _ width _ => some (.slot width)
  | _ => none

/-- The member of the state that has a name. -/
def Program.member? (p : Program) (name : String) : Option Member :=
  p.members.find? (·.name == name)

def Program.helper? (p : Program) (method : String) : Option Helper :=
  p.helpers.find? (·.method == method)

/-- Numbers of different types are added and subtracted in their common type. -/
def binaryKind? (op : BinaryOp) : Kind → Kind → Option Kind
  | .scalar l, .scalar r =>
    match Typing.binaryType op l r with
    | .ok t => some (.scalar t)
    | .error _ =>
      if (op = .add || op = .sub) && l.isNumeric && r.isNumeric then some (.scalar (commonType l r))
      else none
  | _, _ => none

def unaryKind? (op : UnaryOp) : Kind → Option Kind
  | .scalar t => (Typing.unaryType op t).toOption.map .scalar
  | _ => none

def castKind? (type : ScalarType) : Kind → Option Kind
  | .scalar _ | .size => some (.scalar type)
  | _ => none

/-- An assignment to a temporary converts nothing. -/
def assignKind? (exact : Bool) : Kind → Kind → Option Kind
  | .scalar t, .scalar v =>
    if v = t || (!exact && t.isNumeric && v.isNumeric) then some (.scalar t) else none
  | _, _ => none

def stepKind? : Kind → Option Kind
  | .scalar t => if t.isNumeric then some (.scalar t) else none
  | _ => none

/-- The mathematical functions that a target program calls. -/
def mathNames : List String :=
  ["fmod", "abs", "fabs", "min", "fmin", "max", "fmax", "sqrt", "sin", "cos", "tan", "exp", "log",
    "pow", "floor", "ceil"]

/-- What a call with arguments of these kinds yields. -/
def Callee.kind? (p : Program) (args : List Kind) : Callee → Option Kind
  | .helper method => (p.helper? method).bind fun h =>
    if args = h.params.map (fun param => .scalar param.type) then some (.ofResult h.ret) else none
  | .passId => if args = [] then some (.scalar .int) else none
  | .atomic _ width =>
    match args with
    | .slot w :: operands =>
      if w = width && operands.all (· = .scalar width.scalar) then some (.scalar width.scalar)
      else none
    | _ => none
  | .convert width =>
    match args with
    | [.scalar t] => if t.isFloating then some (.scalar width.scalar) else none
    | _ => none
  | .query func => if func.isQuery && args = [.scalar .int] then some .size else none
  | .math name =>
    match args with
    | .scalar t :: rest =>
      if mathNames.contains name && t.isPromoted && rest.all (· = .scalar t) then some (.scalar t)
      else none
    | _ => none

mutual

def Expr.kind? (p : Program) (temps : Temps) (env : ScopeFrame) : Expr → Option Kind
  | .literal v => some (.scalar v.type)
  | .var name => (env.lookup name).map .scalar
  | .temp n => temps[n]?.map .scalar
  | .member name => (p.member? name).bind Member.kind?
  | .lengthOf array => (p.member? (lengthName array)).bind Member.lengthKind?
  | .element array index =>
    if index.kind? p temps env = some (.scalar .int) then (p.member? array).bind Member.elementKind?
    else none
  | .addressOf array index =>
    if index.kind? p temps env = some (.scalar .int) then (p.member? array).bind Member.addressKind?
    else none
  | .paren e => e.kind? p temps env
  | .binary op lhs rhs =>
    (lhs.kind? p temps env).bind fun l => (rhs.kind? p temps env).bind fun r => binaryKind? op l r
  | .shiftUnsigned type lhs rhs =>
    (lhs.kind? p temps env).bind fun l => (rhs.kind? p temps env).bind fun r =>
      if l = .scalar type then binaryKind? .ushr l r else none
  | .unary op operand => (operand.kind? p temps env).bind (unaryKind? op)
  | .conditional cond thenValue elseValue =>
    if cond.kind? p temps env = some (.scalar .boolean) then
      (thenValue.kind? p temps env).bind fun a => (elseValue.kind? p temps env).bind fun b =>
        if a = b then some a else none
    else none
  | .cast type value => (value.kind? p temps env).bind (castKind? type)
  | .call callee args => (Expr.kinds? p temps env args).bind fun ks => callee.kind? p ks
  | .assign target value =>
    (target.kind? p temps env).bind fun t => (value.kind? p temps env).bind fun v =>
      assignKind? target.temp?.isSome t v
  | .compound op target value =>
    (target.kind? p temps env).bind fun t => (value.kind? p temps env).bind fun v =>
      if binaryKind? op t v = some t then some t else none
  | .step _ _ target => (target.kind? p temps env).bind stepKind?
  | .comma first value => (Expr.kinds? p temps env first).bind fun _ => value.kind? p temps env

def Expr.kinds? (p : Program) (temps : Temps) (env : ScopeFrame) : List Expr → Option (List Kind)
  | [] => some []
  | e :: rest =>
    (e.kind? p temps env).bind fun k => (Expr.kinds? p temps env rest).map (k :: ·)

end

/-! ## Parts -/

mutual

/-- The expression and all its subexpressions, outermost first. -/
def Expr.nodes : Expr → List Expr
  | .element array index => .element array index :: index.nodes
  | .addressOf array index => .addressOf array index :: index.nodes
  | .paren e => .paren e :: e.nodes
  | .binary op lhs rhs => .binary op lhs rhs :: (lhs.nodes ++ rhs.nodes)
  | .shiftUnsigned type lhs rhs => .shiftUnsigned type lhs rhs :: (lhs.nodes ++ rhs.nodes)
  | .unary op operand => .unary op operand :: operand.nodes
  | .conditional cond thenValue elseValue =>
    .conditional cond thenValue elseValue :: (cond.nodes ++ (thenValue.nodes ++ elseValue.nodes))
  | .cast type value => .cast type value :: value.nodes
  | .call callee args => .call callee args :: Expr.listNodes args
  | .assign target value => .assign target value :: (target.nodes ++ value.nodes)
  | .compound op target value => .compound op target value :: (target.nodes ++ value.nodes)
  | .step op before target => .step op before target :: target.nodes
  | .comma first value => .comma first value :: (Expr.listNodes first ++ value.nodes)
  | e => [e]

def Expr.listNodes : List Expr → List Expr
  | [] => []
  | e :: rest => e.nodes ++ Expr.listNodes rest

end

theorem Expr.listNodes_eq (es) : Expr.listNodes es = es.flatMap Expr.nodes := by
  induction es with
  | nil => rfl
  | cons e rest ih => rw [Expr.listNodes, ih, flatMap_cons]

/-- The expressions directly inside an expression. -/
def Expr.parts : Expr → List Expr
  | .literal _ | .var _ | .temp _ | .member _ | .lengthOf _ => []
  | .element _ e | .addressOf _ e | .paren e | .unary _ e | .cast _ e | .step _ _ e => [e]
  | .binary _ a b | .shiftUnsigned _ a b | .assign a b | .compound _ a b => [a, b]
  | .conditional cond thenValue elseValue => [cond, thenValue, elseValue]
  | .call _ args => args
  | .comma first value => first ++ [value]

theorem Expr.nodes_listed : Listed Expr.nodes Expr.parts := by
  intro e
  cases e <;> simp [Expr.nodes, Expr.parts, listNodes_eq]

theorem Expr.parts_induct {motive : Expr → Prop} (step : ∀ e, (∀ b ∈ e.parts, motive b) → motive e)
    (e) : motive e :=
  nodes_listed.induct step e

section

variable {p : Program} {temps : Temps} {env : ScopeFrame}

/-- The expression is well typed. -/
def Expr.HasKind (p : Program) (temps : Temps) (env : ScopeFrame) (e : Expr) : Prop :=
  ∃ k, e.kind? p temps env = some k

theorem Expr.kinds?_each : ∀ {es : List Expr} {ks : List Kind},
    Expr.kinds? p temps env es = some ks → ∀ e ∈ es, e.HasKind p temps env
  | [], _, _ => forall_mem_nil _
  | _ :: _, _, h => by
    obtain ⟨k, first, h⟩ := bind_eq_some_iff.mp h
    obtain ⟨ks, others, -⟩ := map_eq_some_iff.mp h
    exact forall_mem_cons.mpr ⟨⟨k, first⟩, kinds?_each others⟩

theorem Expr.haveKind_parts (e : Expr) :
    e.HasKind p temps env → ∀ part ∈ e.parts, part.HasKind p temps env := by
  have pair : ∀ {a b : Expr} {f : Kind → Kind → Option Kind} {k : Kind},
      ((a.kind? p temps env).bind fun l => (b.kind? p temps env).bind (f l)) = some k →
        ∀ part ∈ [a, b], part.HasKind p temps env := by
    intro a b f k h
    obtain ⟨l, left, h⟩ := bind_eq_some_iff.mp h
    obtain ⟨r, right, -⟩ := bind_eq_some_iff.mp h
    exact forall_mem_cons.mpr ⟨⟨l, left⟩, forall_mem_singleton.mpr ⟨r, right⟩⟩
  rintro ⟨k, h⟩
  cases e with
  | literal | var | temp | member | lengthOf => exact forall_mem_nil _
  | element array index | addressOf array index =>
    rw [Expr.kind?, ite_none_right_eq_some] at h
    exact forall_mem_singleton.mpr ⟨_, h.1⟩
  | paren inner => exact forall_mem_singleton.mpr ⟨k, h⟩
  | unary op operand | cast type value | step op before target =>
    obtain ⟨t, inner, -⟩ := bind_eq_some_iff.mp h
    exact forall_mem_singleton.mpr ⟨t, inner⟩
  | binary op a b | shiftUnsigned type a b | assign a b | compound op a b => exact pair h
  | conditional cond thenValue elseValue =>
    rw [Expr.kind?, ite_none_right_eq_some] at h
    exact forall_mem_cons.mpr ⟨⟨_, h.1⟩, pair h.2⟩
  | call callee args =>
    obtain ⟨ks, given, -⟩ := bind_eq_some_iff.mp h
    exact kinds?_each given
  | comma first value =>
    obtain ⟨ks, before, h⟩ := bind_eq_some_iff.mp h
    exact forall_mem_append.mpr ⟨kinds?_each before, forall_mem_singleton.mpr ⟨k, h⟩⟩

/-- All parts of an expression that has a type have one. -/
theorem Expr.nodes_haveKind {e : Expr} {k : Kind} (h : e.kind? p temps env = some k) :
    ∀ x ∈ e.nodes, x.HasKind p temps env :=
  nodes_listed.forall_mem haveKind_parts ⟨k, h⟩

mutual

/-- A local that is not mentioned has no part in the type. -/
theorem Expr.kind?_unmentioned {name : String} (type : ScalarType) :
    ∀ {e : Expr}, e.mentions name = false →
      e.kind? p temps ((name, type) :: env) = e.kind? p temps env
  | .literal _, _ | .temp _, _ | .member _, _ | .lengthOf _, _ => rfl
  | .var other, absent => by
    have apart : (other == name) = false := absent
    rw [Expr.kind?, Expr.kind?, lookup_cons, apart]
  | .element _ e, absent | .addressOf _ e, absent | .paren e, absent | .unary _ e, absent
  | .cast _ e, absent | .step _ _ e, absent => by
    have inner := kind?_unmentioned type (e := e) absent
    simp only [Expr.kind?, inner]
  | .binary _ l r, absent | .shiftUnsigned _ l r, absent | .assign l r, absent
  | .compound _ l r, absent => by
    obtain ⟨first, second⟩ := Bool.or_eq_false_iff.mp absent
    simp only [Expr.kind?, kind?_unmentioned type first, kind?_unmentioned type second]
  | .conditional cond thenValue elseValue, absent => by
    obtain ⟨both, third⟩ := Bool.or_eq_false_iff.mp absent
    obtain ⟨first, second⟩ := Bool.or_eq_false_iff.mp both
    simp only [Expr.kind?, kind?_unmentioned type first, kind?_unmentioned type second,
      kind?_unmentioned type third]
  | .call _ args, absent => by
    simp only [Expr.kind?, kinds?_unmentioned type args absent]
  | .comma first value, absent => by
    obtain ⟨before, last⟩ := Bool.or_eq_false_iff.mp absent
    simp only [Expr.kind?, kinds?_unmentioned type first before, kind?_unmentioned type last]

theorem Expr.kinds?_unmentioned {name : String} (type : ScalarType) :
    ∀ (es : List Expr), Expr.anyMentions name es = false →
      Expr.kinds? p temps ((name, type) :: env) es = Expr.kinds? p temps env es
  | [], _ => rfl
  | e :: rest, absent => by
    obtain ⟨first, others⟩ := Bool.or_eq_false_iff.mp absent
    simp only [Expr.kinds?, kind?_unmentioned type first, kinds?_unmentioned type rest others]

end

end

end GridKernel.Target
