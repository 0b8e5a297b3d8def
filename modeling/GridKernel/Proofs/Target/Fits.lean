import GridKernel.Proofs.Target.Emission
import GridKernel.Proofs.Target.Layout

/-!
# Translated expressions fit their program

A program fits a descriptor if it declares the descriptor's fields as members and its methods as
helpers. An expression that the checker gives a type is then translated to expressions of that type,
with the locals in sight that the checker sees, and which use temporaries properly.
-/

namespace GridKernel.Target

open List Outcome Typing Expr
open Typing (typeOf placeType valueType)

/-- The program declares what the descriptor does. -/
structure Interface (p : Program) (d : Descriptor) : Prop where
  scalar : ∀ {name t}, Typing.scalarType d name = .ok t → p.member? name = some (.scalar t name)
  array : ∀ {name t}, Typing.arrayType d name = .ok t →
    ∃ space, p.member? name = some (.array space t name)
  slots : ∀ {name f w}, d.field? name = some f → f.element = .atomic w →
    ∃ scope, p.member? name = some (.slots scope w name)
  length : ∀ {name f}, d.field? name = some f → f.isArray = true → d.ReadsLength name →
    p.member? (lengthName name) = some (.length name)
  helper : ∀ {name m}, d.method? name = some m → m.name ≠ d.entry →
    ∃ h, p.helper? name = some h ∧ h.params = m.params ∧ h.ret = m.ret

/-- A method reads the lengths that are read here. -/
def LengthsIn (d : Descriptor) (nodes : List GridKernel.Expr) : Prop :=
  ∀ array, .length array ∈ nodes → d.ReadsLength array

namespace LengthsIn

variable {d : Descriptor} {nodes : List GridKernel.Expr} {e : GridKernel.Expr}

theorem mono (h : LengthsIn d nodes) (fewer : nodes' ⊆ nodes) : LengthsIn d nodes' :=
  fun array member => h array (fewer member)

theorem tail (h : LengthsIn d (e :: nodes)) : LengthsIn d nodes :=
  h.mono (subset_cons_self _ _)

theorem left (h : LengthsIn d (nodes ++ nodes')) : LengthsIn d nodes :=
  h.mono (subset_append_left _ _)

theorem right (h : LengthsIn d (nodes ++ nodes')) : LengthsIn d nodes' :=
  h.mono (subset_append_right _ _)

end LengthsIn

/-- What the expression is translated to has its type. -/
def Fits (p : Program) (d : Descriptor) (s : Scope) (e : GridKernel.Expr) : Prop :=
  ∀ {result}, typeOf d s e = .ok result → LengthsIn d e.nodes →
    Emission (fun lo hi types em =>
      Formed p s.names types lo hi em.pre [em.value] [.ofResult result]) (expr d s e)

section

variable {p : Program} {d : Descriptor} {s : Scope} {types : Temps} {name : String} {t : ScalarType}

/-! ## Leaves -/

theorem kind?_var (declared : Typing.localType s name = .ok t) :
    (Expr.var name).kind? p types s.names = some (.scalar t) := by
  have found := localType_eq_ok.mp declared
  rw [Scope.lookup?_eq] at found
  rw [Expr.kind?, found]
  rfl

theorem Interface.kind?_member (face : Interface p d)
    (declared : Typing.scalarType d name = .ok t) :
    (Expr.member name).kind? p types s.names = some (.scalar t) := by
  rw [Expr.kind?, face.scalar declared]
  rfl

theorem fits_literal (v) : Fits p d s (.literal v) := by
  intro result typed lengths
  obtain rfl := Except.ok.inj typed
  exact .ret fun n types => Formed.leaf n (joins_literal v) rfl

theorem fits_var (name) : Fits p d s (.var name) := by
  intro result typed lengths
  obtain ⟨t, found, ended⟩ := bind_eq_ok.mp typed
  obtain rfl := pure_eq_ok.mp ended
  exact .ret fun n types => Formed.leaf n (joins_var name) (kind?_var found)

theorem fits_field (face : Interface p d) (name) : Fits p d s (.field name) := by
  intro result typed lengths
  obtain ⟨t, found, ended⟩ := bind_eq_ok.mp typed
  obtain rfl := pure_eq_ok.mp ended
  exact .ret fun n types => Formed.leaf n (joins_member name) (face.kind?_member found)

theorem fits_length (face : Interface p d) (array) : Fits p d s (.length array) := by
  intro result typed lengths
  obtain ⟨rfl, f, declared, many⟩ := typeOf_length typed
  refine .ret fun n types => Formed.leaf n (joins_lengthOf array) ?_
  rw [Expr.kind?, face.length declared many (lengths array mem_cons_self)]
  rfl

/-! ## Forms with operands in order -/

variable {env : ScopeFrame} {e : Expr}

theorem Interface.kind?_element (face : Interface p d) {array : String}
    (elements : Typing.arrayType d array = .ok t)
    (index : e.kind? p types env = some (.scalar .int)) :
    (Expr.element array e).kind? p types env = some (.scalar t) := by
  obtain ⟨space, found⟩ := face.array elements
  rw [Expr.kind?, if_pos index, found]
  rfl

theorem Interface.kind?_addressOf (face : Interface p d) (declared : d.field? name = some f)
    (element : f.element = .atomic w) (index : e.kind? p types env = some (.scalar .int)) :
    (Expr.addressOf name e).kind? p types env = some (.slot w) := by
  obtain ⟨scope, found⟩ := face.slots declared element
  rw [Expr.kind?, if_pos index, found]
  rfl

theorem fits_element (face : Interface p d) (h : Fits p d s index) (array) :
    Fits p d s (.element array index) := by
  intro result typed lengths
  obtain ⟨t, rfl, position, elements⟩ := typeOf_element typed
  refine (h position lengths.tail).andThen fun i => .ret fun n types lo formed => ?_
  exact formed.join (joins_element array i.value) (face.kind?_element elements formed.kind)

variable {op : BinaryOp} {v : ScalarType}

theorem kind?_binary (operator : Typing.binaryType op t v = .ok u)
    (left : l.kind? p types env = some (.scalar t))
    (right : r.kind? p types env = some (.scalar v)) :
    (Expr.binary op l r).kind? p types env = some (.scalar u) := by
  simp only [Expr.kind?, left, right, Option.bind_some, binaryKind?, operator]

theorem promoted_of_rem (operator : Typing.binaryType .rem t v = .ok u) :
    v = t ∧ u = t ∧ t.isPromoted = true := by
  revert operator
  cases t <;> cases v <;> cases u <;> decide

theorem kind?_combine (operator : Typing.binaryType op t v = .ok u)
    (left : l.kind? p types env = some (.scalar t)) (right : r.kind? p types env = some (.scalar v))
    (pre) : (combine op t l r pre).value.kind? p types env = some (.scalar u) := by
  unfold combine
  split
  · split
    · obtain ⟨rfl, rfl, promoted⟩ := promoted_of_rem operator
      rw [Expr.kind?, kinds?_cons left (kinds?_single right)]
      simp [Callee.kind?, mathNames, promoted]
    · exact kind?_binary operator left right
  · simp only [Expr.kind?, left, right, Option.bind_some, binaryKind?, operator, if_true]
  · exact kind?_binary operator left right

theorem joins_combine (op t l r pre) : (combine op t l r pre).value.Joins [l, r] := by
  unfold combine
  split
  · split
    · exact joins_call _ _
    · exact joins_binary _ l r
  · exact joins_shiftUnsigned t l r
  · exact joins_binary _ l r

/-- Where the answer is known, asking for a type is no step of the translation. -/
theorem typed_known {α : Type} {r : Except TypeFault α} {a : α} (known : r = .ok a) :
    Target.typed r = pure a := by
  subst known
  rfl

theorem valueType_known {e : GridKernel.Expr} (typed : typeOf d s e = .ok (some t)) :
    Target.typed (valueType d s e) = pure t :=
  typed_known (valueType_eq_ok.mpr typed)

/-- An operand keeps its type in a temporary. -/
theorem keep_formed {e : GridKernel.Expr} (typed : typeOf d s e = .ok (some t)) (h : Fits p d s e)
    (lengths : LengthsIn d e.nodes) (hoist) :
    Emission (fun lo hi types em => Formed p s.names types lo hi em.pre [em.value] [.scalar t])
      (keep d s hoist e (expr d s e)) := by
  refine (h typed lengths).andThen fun em => ?_
  cases hoist with
  | false => exact .ret fun n types lo formed => formed
  | true =>
    simp only [if_true, valueType_known typed, pure_bind]
    refine (Emission.fresh t).andThen fun x => .ret ?_
    rintro n types mid ⟨rfl, rfl, declared⟩ lo formed
    exact formed.operand.keep declared

theorem fits_logical (circuit : op.isShortCircuit = true) (h : Fits p d s lhs)
    (h₁ : Fits p d s rhs) : Fits p d s (.binary op lhs rhs) := by
  intro result typed lengths
  obtain ⟨l, r, t, rfl, left, right, operator⟩ := typeOf_binary typed
  rw [expr, if_pos circuit]
  refine (h left lengths.tail.left).andThen fun a => (h₁ right lengths.tail.right).andThen fun b => ?_
  refine .ret fun n types mid second lo first => ?_
  exact (first.inlineOperand.append second.inlineOperand).join (joins_binary op _ _)
    (kind?_binary operator first.inlineOperand.kind second.inlineOperand.kind)

theorem fits_binary (strict : op.isShortCircuit = false) (h : Fits p d s lhs)
    (h₁ : Fits p d s rhs) : Fits p d s (.binary op lhs rhs) := by
  intro result typed lengths
  obtain ⟨l, r, t, rfl, left, right, operator⟩ := typeOf_binary typed
  rw [expr, if_neg (by simp [strict]), valueType_known left, pure_bind]
  refine (keep_formed left h lengths.tail.left _).andThen fun a => ?_
  refine (h₁ right lengths.tail.right).andThen fun b => .ret fun n types mid second lo first => ?_
  rw [combine_pre]
  exact (first.operand.append second.operand).join (joins_combine op _ _ _ _)
    (kind?_combine operator first.operand.kind second.operand.kind _)

theorem fits_unary (h : Fits p d s operand) (op) : Fits p d s (.unary op operand) := by
  intro result typed lengths
  obtain ⟨u, t, rfl, inner, operator⟩ := typeOf_unary typed
  refine (h inner lengths.tail).andThen fun em => .ret fun n types lo formed => ?_
  refine formed.operand.join (joins_unary op _) ?_
  have own : em.operand.kind? p types s.names = some (.scalar u) := formed.operand.kind
  simp [Expr.kind?, own, unaryKind?, operator, Except.toOption, Kind.ofResult]

theorem fits_conditional {cond thenValue elseValue : GridKernel.Expr} (h : Fits p d s cond)
    (h₁ : Fits p d s thenValue) (h₂ : Fits p d s elseValue) :
    Fits p d s (.conditional cond thenValue elseValue) := by
  intro result typed lengths
  obtain ⟨t, rfl, condition, first, second⟩ := typeOf_conditional typed
  have lengths : LengthsIn d (cond.nodes ++ thenValue.nodes ++ elseValue.nodes) := lengths.tail
  refine (h condition lengths.left.left).andThen fun c => ?_
  refine (h₁ first lengths.left.right).andThen fun a => ?_
  refine (h₂ second lengths.right).andThen fun b => .ret fun n types hi third mid second lo first => ?_
  refine (first.inlineOperand.append (second.inlineOperand.append third.inlineOperand)).join
    (joins_conditional _ _ _) ?_
  have test : c.inlineOperand.kind? p types s.names = some (.scalar .boolean) :=
    first.inlineOperand.kind
  rw [Expr.kind?, if_pos test, second.inlineOperand.kind, third.inlineOperand.kind]
  simp

variable {lo hi : Nat}

theorem formed_castTo {em : Emitted} (type)
    (h : Formed p env types lo hi em.pre [em.value] [.scalar source]) :
    Formed p env types lo hi (castTo source type em).pre [(castTo source type em).value]
      [.scalar type] := by
  have convert : source.isFloating = true → ∀ w : SlotWidth,
      Formed p env types lo hi em.pre [.call (.convert w) [em.value]] [.scalar w.scalar] := by
    intro floating w
    refine h.join (joins_call _ _) ?_
    rw [Expr.kind?, h.kinds]
    simp [Callee.kind?, floating]
  unfold castTo
  split
  · rename_i both
    have floating := (Bool.and_eq_true _ _ ▸ both).1
    split
    · exact convert floating .long
    · exact convert floating .int
    · refine (convert floating .int).join (joins_cast type _) ?_
      rw [Expr.kind?, (convert floating .int).kind]
      rfl
  · refine h.operand.join (joins_cast type _) ?_
    rw [Expr.kind?, h.operand.kind]
    rfl

variable {value : GridKernel.Expr}

theorem fits_cast (h : Fits p d s value) (type implicit) :
    Fits p d s (.cast type value implicit) := by
  intro result typed lengths
  obtain ⟨rfl, source, given, -⟩ := typeOf_cast typed
  rw [expr, valueType_known given, pure_bind]
  refine (h given lengths.tail).andThen fun em => .ret fun n types lo formed => ?_
  exact formed_castTo type formed

/-! ## Assignments -/

theorem kind?_assign {target v : Expr} (place : target.kind? p types env = some (.scalar t))
    (value : v.kind? p types env = some (.scalar t)) :
    (Expr.assign target v).kind? p types env = some (.scalar t) := by
  simp [Expr.kind?, place, value, assignKind?]

/-- A value that is stored has the type of the target. -/
theorem store_formed (typed : typeOf d s value = .ok (some t)) {target v : Expr}
    (place : target.temp? = none) (conflict pre) :
    Emission (fun mid hi types em => ∀ lo,
      Formed p s.names types lo mid pre [target, v] [.scalar t, .scalar t] →
        Formed p s.names types lo hi em.pre [em.value] [.scalar t])
      (store d s conflict value pre target v) := by
  unfold store
  cases conflict with
  | false =>
    refine .ret fun n types lo formed => ?_
    have kinds := kind?_of_cons formed.kinds
    exact formed.join (joins_assign place)
      (kind?_assign kinds.1 (kind?_of_single kinds.2))
  | true =>
    simp only [if_true, valueType_known typed, pure_bind]
    refine (Emission.fresh t).andThen fun x => .ret ?_
    rintro n types mid ⟨rfl, rfl, declared⟩ lo formed
    have kinds := kind?_of_cons formed.kinds
    have kept := (formed.tidy.perm (List.Perm.swap v target [])).keep
    have parts : Tidy lo (mid + 1) (pre ++ [.assign (.temp mid) v]) ([target, .temp mid] ++ []) :=
      kept.perm (List.Perm.swap target (.temp mid) [])
    refine .single (parts.join (joins_assign place)) (forall_mem_append.mpr ⟨formed.first, ?_⟩)
      (kind?_assign kinds.1 (kind?_temp declared))
    exact forall_mem_singleton.mpr
      ⟨_, kind?_keep declared (kind?_of_single kinds.2)⟩

/-- The index of a place, if it has one, fits. -/
def FitsPlace (p : Program) (d : Descriptor) (s : Scope) : Place GridKernel.Expr → Prop
  | .element _ index => Fits p d s index
  | .var _ | .field _ => True

variable {target : Place GridKernel.Expr}

theorem fits_assign (face : Interface p d) (h : FitsPlace p d s target) (h₁ : Fits p d s value) :
    Fits p d s (.assign target none value) := by
  intro result typed lengths
  obtain ⟨t, v, rfl, place, source, assigned⟩ := typeOf_assign typed
  obtain rfl := assignType_plain assigned
  have lengths : LengthsIn d (target.nodes ++ value.nodes) := lengths.tail
  cases target with
  | var name =>
    refine (h₁ source lengths.right).andThen fun em => ?_
    refine (store_formed source rfl _ _).mono fun mid hi types r next lo formed => next lo ?_
    exact formed.after_leaf (joins_var name) (kind?_var place)
  | field name =>
    refine (h₁ source lengths.right).andThen fun em => ?_
    refine (store_formed source rfl _ _).mono fun mid hi types r next lo formed => next lo ?_
    exact formed.after_leaf (joins_member name) (face.kind?_member place)
  | element array index =>
    obtain ⟨position, elements⟩ := placeType_element place
    refine (keep_formed position h lengths.left _).andThen fun i => ?_
    refine (h₁ source lengths.right).andThen fun em => ?_
    refine (store_formed source rfl _ _).mono fun mid hi types r next mid' formed lo front => next lo ?_
    exact (front.join (joins_element array i.value)
      (face.kind?_element elements front.kind)).append formed

/-- Without effects there are no new temporaries. -/
theorem expr_plain (checked : Typing.check d = .ok ()) {e : GridKernel.Expr}
    (typed : typeOf d s e = .ok (some t)) (plain : e.hasEffects = false) :
    Emission (fun lo hi _ _ => hi = lo) (expr d s e) := by
  intro temps em temps' emits
  obtain ⟨em', kept, -⟩ := plain_translation checked typed plain temps
  have same : (em, temps') = (em', temps) := Except.ok.inj (emits.symm.trans kept)
  cases same
  exact ⟨prefix_rfl, fun _ _ => rfl⟩

/-- A place that an assignment can store into more than once: it is no temporary, and evaluating it
stores into none. -/
structure Storable (p : Program) (env : ScopeFrame) (types : Temps) (lo hi : Nat)
    (pre : List Expr) (target : Expr) (t : ScalarType) : Prop where
  formed : Formed p env types lo hi pre [target] [.scalar t]
  place : target.temp? = none
  still : target.assigned = []

theorem place_formed (checked : Typing.check d = .ok ()) (face : Interface p d)
    (h : FitsPlace p d s target) (typed : placeType d s target = .ok t)
    (lengths : LengthsIn d target.nodes) (effects) :
    Emission (fun lo hi types r => Storable p s.names types lo hi r.1 r.2 t)
      (place d s effects target) := by
  cases target with
  | var name =>
    exact .ret fun n types => ⟨.leaf n (joins_var name) (kind?_var typed), rfl, rfl⟩
  | field name =>
    exact .ret fun n types => ⟨.leaf n (joins_member name) (face.kind?_member typed), rfl, rfl⟩
  | element array index =>
    obtain ⟨position, elements⟩ := placeType_element typed
    have index_formed := h position lengths
    rw [place]
    cases kept : index.hasEffects || (effects && !index.isLiteral) with
    | true =>
      refine index_formed.andThen fun i => (Emission.fresh .int).andThen fun x => .ret ?_
      rintro n types mid ⟨rfl, rfl, declared⟩ lo formed
      have index := formed.operand.keep declared
      exact ⟨index.join (joins_element array _) (face.kind?_element elements index.kind), rfl, rfl⟩
    | false =>
      have plain := expr_plain checked position (Bool.or_eq_false_iff.mp kept).1
      refine (index_formed.and plain).andThen fun i => .ret ?_
      rintro n types lo ⟨formed, rfl⟩
      have still := formed.tidy.assigned_nil mem_cons_self
      exact ⟨formed.join (joins_element array _) (face.kind?_element elements formed.kind), rfl,
        still⟩

/-- A compound assignment to a place of its type. -/
theorem update_formed (operator : Typing.binaryType op t v = .ok t)
    (typed : typeOf d s value = .ok (some v)) (h : Fits p d s value)
    (lengths : LengthsIn d value.nodes) (pre target) :
    Emission (fun mid hi types em => ∀ lo, Storable p s.names types lo mid pre target t →
        Formed p s.names types lo hi em.pre [em.value] [.scalar t])
      (update d s op t value (expr d s value) pre target) := by
  unfold update
  cases value.hasEffects with
  | true =>
    simp only [if_true, valueType_known typed, pure_bind]
    refine (Emission.fresh t).andThen fun old => ?_
    refine (h typed lengths).andThen fun r => (Emission.fresh v).andThen fun new => .ret ?_
    rintro n types hi ⟨rfl, rfl, holds⟩ _ formed mid ⟨rfl, rfl, held⟩ lo stored
    have before := (stored.formed.tidy.again mem_cons_self stored.still).keep.append
      formed.operand.tidy
    have kept := (before.perm perm_append_comm).keep.perm (List.Perm.swap _ _ _)
    refine .single (.assign stored.place (joins_combine op t _ _ []) kept) ?_
      (kind?_assign stored.formed.kind
        (kind?_combine operator (kind?_temp held) (kind?_temp holds) []))
    simp only [forall_mem_append, forall_mem_singleton]
    exact ⟨⟨⟨stored.formed.first, ⟨_, kind?_keep held stored.formed.kind⟩⟩, formed.first⟩,
      ⟨_, kind?_keep holds formed.operand.kind⟩⟩
  | false =>
    refine (h typed lengths).andThen fun r => ?_
    have kind : ∀ {types : Temps} {lo hi : Nat},
        Formed p s.names types lo hi r.pre [r.value] [.scalar v] →
          r.operand.kind? p types s.names = some (.scalar v) := fun formed => formed.operand.kind
    cases isNativeCompound op t with
    | true =>
      refine .ret fun n types mid formed lo stored => ?_
      refine (stored.formed.append formed.operand).join (joins_compound op stored.place) ?_
      simp [Expr.kind?, stored.formed.kind, kind formed, binaryKind?, operator]
    | false =>
      refine .ret fun n types mid formed lo stored => ?_
      have twice := (stored.formed.tidy.again mem_cons_self stored.still).append
        formed.operand.tidy
      refine .single (.assign stored.place (joins_combine op t _ _ [])
        (twice.perm (List.Perm.cons _ (List.Perm.swap _ _ _)))) ?_ (kind?_assign
        stored.formed.kind (kind?_combine operator stored.formed.kind (kind formed) []))
      exact forall_mem_append.mpr ⟨stored.formed.first, formed.first⟩

theorem fits_compound (checked : Typing.check d = .ok ()) (face : Interface p d)
    (h : FitsPlace p d s target) (h₁ : Fits p d s value) (op) :
    Fits p d s (.assign target (some op) value) := by
  intro result typed lengths
  obtain ⟨t, v, rfl, place, source, assigned⟩ := typeOf_assign typed
  obtain ⟨-, operator⟩ := assignType_compound assigned
  have lengths : LengthsIn d (target.nodes ++ value.nodes) := lengths.tail
  rw [expr, typed_known place, pure_bind]
  exact (place_formed checked face h place lengths.left _).andThen fun r =>
    update_formed operator source h₁ lengths.right r.1 r.2

/-! ## Steps -/

theorem kind?_step_one (op : StepOp) (numeric : t.isNumeric = true)
    (h : e.kind? p types env = some (.scalar t)) :
    ∃ u, u.isNumeric = true ∧
      (Expr.binary op.binary e (.literal (.int 1))).kind? p types env = some (.scalar u) := by
  have sum : binaryKind? op.binary (.scalar t) (.scalar .int) =
      some (.scalar (commonType t .int)) := by
    revert numeric
    cases op <;> cases t <;> decide
  have number : (commonType t .int).isNumeric = true := by
    cases t <;> rfl
  refine ⟨commonType t .int, number, ?_⟩
  rw [Expr.kind?, h]
  exact sum

theorem kind?_assign_number {target v : Expr} (numeric : t.isNumeric = true)
    (number : u.isNumeric = true) (place : target.temp? = none)
    (own : target.kind? p types env = some (.scalar t))
    (value : v.kind? p types env = some (.scalar u)) :
    (Expr.assign target v).kind? p types env = some (.scalar t) := by
  simp [Expr.kind?, own, value, assignKind?, place, numeric, number]

theorem joins_step_one (op : StepOp) (e) :
    (Expr.binary op.binary e (.literal (.int 1))).Joins [e] := by
  have whole : (Expr.binary op.binary e (.literal (.int 1))).Joins ([e] ++ [.literal (.int 1)]) :=
    joins_binary _ _ _
  exact whole.without (joins_literal _)

theorem stepElement_formed (face : Interface p d) (elements : Typing.arrayType d array = .ok t)
    (numeric : t.isNumeric = true) (op before index) :
    Emission (fun mid hi types em => ∀ lo,
      Formed p s.names types lo mid index.pre [index.value] [.scalar .int] →
        Formed p s.names types lo hi em.pre [em.value] [.scalar t])
      (stepElement op before t array index) := by
  refine (Emission.fresh .int).andThen fun i => ?_
  cases before with
  | true =>
    refine .ret ?_
    rintro n types mid ⟨rfl, rfl, held⟩ lo formed
    have kept := formed.operand.keep held
    have slot := kept.join (joins_element array (.temp mid))
      (face.kind?_element elements kept.kind)
    have twice := slot.tidy.again mem_cons_self rfl
    obtain ⟨u, number, sum⟩ := kind?_step_one op numeric slot.kind
    exact .single (.assign rfl (joins_step_one op _) twice) slot.first
      (kind?_assign_number numeric number rfl slot.kind sum)
  | false =>
    refine (Emission.fresh t).andThen fun old => .ret ?_
    rintro n types hi ⟨rfl, rfl, holds⟩ mid ⟨rfl, rfl, held⟩ lo formed
    have kept := formed.operand.keep held
    have slot := kept.join (joins_element array (.temp mid))
      (face.kind?_element elements kept.kind)
    have own : (Expr.temp (mid + 1)).kind? p types s.names = some (.scalar t) :=
      kind?_temp holds
    obtain ⟨u, number, sum⟩ := kind?_step_one op numeric own
    have twice := (slot.tidy.again mem_cons_self rfl).keep
    have thrice :=
      (twice.again mem_cons_self rfl).perm (List.Perm.cons _ (List.Perm.swap _ _ _))
    have stored := (Tidy.assign rfl (joins_step_one op _) thrice).run
    rw [append_assoc] at stored
    refine .single stored (forall_mem_append.mpr ⟨slot.first, forall_mem_cons.mpr ⟨?_, ?_⟩⟩)
      own
    · exact ⟨_, kind?_keep holds slot.kind⟩
    · exact forall_mem_singleton.mpr
        ⟨_, kind?_assign_number numeric number rfl slot.kind sum⟩

theorem kind?_step {target : Expr} (op before) (numeric : t.isNumeric = true)
    (h : target.kind? p types env = some (.scalar t)) :
    (Expr.step op before target).kind? p types env = some (.scalar t) := by
  simp [Expr.kind?, h, stepKind?, numeric]

theorem fits_step (face : Interface p d) (h : FitsPlace p d s target) (op before) :
    Fits p d s (.step target op before) := by
  intro result typed lengths
  obtain ⟨t, rfl, place, numeric⟩ := typeOf_step typed
  cases target with
  | var name =>
    refine .ret fun n types => ?_
    have own : Formed p s.names types n n [] [.var name] [.scalar t] :=
      .leaf n (joins_var name) (kind?_var place)
    exact own.join (joins_step op before rfl) (kind?_step op before numeric own.kind)
  | field name =>
    refine .ret fun n types => ?_
    have own : Formed p s.names types n n [] [.member name] [.scalar t] :=
      .leaf n (joins_member name) (face.kind?_member place)
    exact own.join (joins_step op before rfl) (kind?_step op before numeric own.kind)
  | element array index =>
    obtain ⟨position, elements⟩ := placeType_element place
    rw [expr, step]
    refine (h position lengths.tail).andThen fun i => ?_
    cases index.hasEffects with
    | true =>
      simp only [if_true, typed_known elements, pure_bind]
      exact stepElement_formed face elements numeric op before i
    | false =>
      refine .ret fun n types lo formed => ?_
      have slot := formed.join (joins_element array i.value)
        (face.kind?_element elements formed.kind)
      exact slot.join (joins_step op before rfl) (kind?_step op before numeric slot.kind)

/-! ## Calls -/

/-- Operands have their types together. -/
theorem inOrder_formed (hoist : Bool) : ∀ {es : List GridKernel.Expr} {ts : List ScalarType},
    Typing.valueTypes d s es = .ok ts → (∀ e ∈ es, Fits p d s e) →
      LengthsIn d (GridKernel.Expr.listNodes es) →
      Emission (fun lo hi types r => Formed p s.names types lo hi r.1 r.2 (ts.map .scalar))
        (inOrder d s hoist (operands d s es))
  | [], _, given, _, _ => by
    cases given
    exact .ret fun n types => .nil n
  | [e], _, given, each, lengths => by
    obtain ⟨t, _, rfl, first, none⟩ := valueTypes_cons given
    cases none
    exact (each e mem_cons_self first lengths.left).andThen fun em =>
      .ret fun n types lo formed => formed
  | e :: e' :: rest, _, given, each, lengths => by
    obtain ⟨t, ts, rfl, first, others⟩ := valueTypes_cons given
    refine (keep_formed first (each e mem_cons_self) lengths.left _).andThen fun em => ?_
    refine (inOrder_formed hoist others (fun x member => each x (mem_cons_of_mem _ member))
      lengths.right).andThen fun r => .ret fun n types mid later lo formed => ?_
    exact formed.append later

variable {ts : List ScalarType}

theorem valueTypes_of_cons {e : GridKernel.Expr} {rest : List GridKernel.Expr}
    (first : typeOf d s e = .ok (some t)) (others : Typing.valueTypes d s rest = .ok ts) :
    Typing.valueTypes d s (e :: rest) = .ok (t :: ts) := by
  rw [Typing.valueTypes, asValue_eq_ok.mpr first, others]
  rfl

theorem valueTypes_of_checkOperands {op : AtomicOp} {w : SlotWidth} :
    ∀ {args : List GridKernel.Expr}, Typing.checkOperands d s op w args = .ok () →
      Typing.valueTypes d s args = .ok (List.replicate args.length w.scalar)
  | [], _ => rfl
  | _ :: _, checked => by
    obtain ⟨first, others⟩ := checkOperands_cons checked
    exact valueTypes_of_cons first (valueTypes_of_checkOperands others)

variable {args : List GridKernel.Expr}

theorem fits_call (face : Interface p d) (h : ∀ e ∈ args, Fits p d s e) (method) :
    Fits p d s (.call method args) := by
  intro result typed lengths
  obtain ⟨m, found, apart, arity, given, rfl⟩ := typeOf_call typed
  obtain ⟨helper, declared, params, returns⟩ := face.helper found apart
  refine (inOrder_formed _ (valueTypes_of_checkArgs arity given) h lengths.tail).andThen fun r => ?_
  refine .ret fun n types lo formed => formed.join (joins_call _ _) ?_
  rw [Expr.kind?, formed.kinds]
  simp [Callee.kind?, declared, params, returns, Function.comp_def]

/-! ## Atomic operations -/

theorem Interface.kind?_slot (face : Interface p d) (declared : d.field? name = some f)
    (element : f.element = .atomic w) : (Expr.member name).kind? p types env = some (.slot w) := by
  obtain ⟨scope, found⟩ := face.slots declared element
  rw [Expr.kind?, found]
  rfl

theorem slotIndex_formed (face : Interface p d) (declared : d.field? name = some f)
    (element : f.element = .atomic w)
    (named : Typing.checkSlot d s f.isArray ⟨name, index⟩ = .ok ())
    (given : Typing.valueTypes d s args = .ok ts) (h : ∀ e ∈ index.toList ++ args, Fits p d s e)
    (lengths : LengthsIn d (GridKernel.Expr.optionNodes index ++ GridKernel.Expr.listNodes args)) :
    Emission (fun lo hi types r => Formed p s.names types lo hi r.1 (r.2.1 :: r.2.2)
        (.slot w :: ts.map .scalar)) (slotIndex d s args (operands d s args) name index) := by
  have each : ∀ e ∈ args, Fits p d s e := fun e member => h e (mem_append_right _ member)
  have position := checkSlot_index named
  cases index with
  | none =>
    refine (inOrder_formed _ given each lengths.right).andThen fun r => ?_
    refine .ret fun n types lo formed => ?_
    exact formed.after_leaf (joins_member name) (face.kind?_slot declared element)
  | some index =>
    have own : Fits p d s index := h index mem_cons_self
    refine (keep_formed position.2 own lengths.left _).andThen fun i => ?_
    refine (inOrder_formed _ given each lengths.right).andThen fun r => ?_
    refine .ret fun n types mid later lo formed => ?_
    exact (formed.join (joins_addressOf name i.value)
      (face.kind?_addressOf declared element formed.kind)).append later

theorem kind?_atomic (op) {pointer : Expr} {args : List Expr} (all : ∀ t ∈ ts, t = w.scalar)
    (given : Expr.kinds? p types env (pointer :: args) = some (.slot w :: ts.map .scalar)) :
    (Expr.call (.atomic op w) (pointer :: args)).kind? p types env = some (.scalar w.scalar) := by
  rw [Expr.kind?, given]
  simpa [Callee.kind?] using all

theorem atomicCall_formed (op) (all : ∀ t ∈ ts, t = w.scalar) (arity : ts.length = op.arity)
    (pointer args pre) :
    Emission (fun mid hi types em => ∀ lo, Formed p s.names types lo mid pre (pointer :: args)
        (.slot w :: ts.map .scalar) →
          Formed p s.names types lo hi em.pre [em.value] [.scalar w.scalar])
      (atomicCall op w pointer args pre) := by
  unfold atomicCall
  split
  · rename_i value rest
    refine (Emission.fresh w.scalar).andThen fun x => .ret ?_
    rintro n types mid ⟨rfl, rfl, held⟩ lo formed
    have count := length_of_kinds? formed.kinds
    simp only [length_cons, length_map, arity, AtomicOp.arity] at count
    obtain rfl : rest = [] := eq_nil_of_length_eq_zero (by omega)
    obtain ⟨t, rfl⟩ := length_eq_one_iff.mp arity
    obtain rfl := all t mem_cons_self
    obtain ⟨address, operand⟩ := kind?_of_cons formed.kinds
    have own : (Expr.temp mid).kind? p types s.names = some (.scalar w.scalar) :=
      kind?_temp held
    have kept := (formed.tidy.perm (List.Perm.swap _ _ _)).keep
    have moved : ([Expr.temp mid, .temp mid] ++ [pointer]).Perm
        ([pointer] ++ [.temp mid, .temp mid]) := perm_append_comm
    have parts : Tidy lo (mid + 1) (pre ++ [.assign (.temp mid) value])
        ([pointer, .temp mid] ++ [.temp mid]) :=
      (kept.again mem_cons_self rfl).perm moved
    have stored := (parts.join (joins_call (.atomic .set w) _)).run
    rw [append_assoc] at stored
    have exchange := kind?_atomic .set all
      (kinds?_cons address (kinds?_single own))
    refine .single stored (forall_mem_append.mpr ⟨formed.first, forall_mem_cons.mpr ⟨?_, ?_⟩⟩)
      own
    · exact ⟨_, kind?_keep held (kind?_of_single operand)⟩
    · exact forall_mem_singleton.mpr ⟨_, exchange⟩
  · refine .ret fun n types lo formed => ?_
    obtain rfl := eq_nil_of_length_eq_zero arity
    have count := length_of_kinds? formed.kinds
    obtain rfl : args = [] := eq_nil_of_length_eq_zero (Nat.succ.inj count)
    have joins : (Expr.call (.atomic .get w) ([pointer] ++ [.literal (Value.zero w.scalar)])).Joins
        ([pointer] ++ [.literal (Value.zero w.scalar)]) := joins_call _ _
    have zero : (Expr.literal (Value.zero w.scalar)).kind? p types s.names =
        some (.scalar w.scalar) := by
      rw [Expr.kind?, Value.type_zero]
    have all : ∀ t ∈ [w.scalar], t = w.scalar := fun t member => mem_singleton.mp member
    exact formed.join (joins.without (joins_literal _))
      (kind?_atomic .get all (kinds?_cons formed.kind (kinds?_single zero)))
  · refine .ret fun n types lo formed => ?_
    exact formed.join (joins_call _ _) (kind?_atomic _ all formed.kinds)

theorem fits_atomic (face : Interface p d) (h : ∀ e ∈ index.toList ++ args, Fits p d s e)
    (op name) : Fits p d s (.atomic op ⟨name, index⟩ args) := by
  intro result typed lengths
  obtain ⟨f, w, rfl, declared, element, named, arity, given⟩ := typeOf_atomic typed
  have width : Typing.slotWidth d op name = .ok (f, w) :=
    slotWidth_eq_ok.mpr ⟨declared, element⟩
  rw [expr, typed_known width, pure_bind]
  refine (slotIndex_formed face declared element named (valueTypes_of_checkOperands given) h
    lengths.tail).andThen fun r => ?_
  refine atomicCall_formed op (fun t member => eq_of_mem_replicate member) ?_ r.2.1 r.2.2 r.1
  rw [length_replicate, arity]

/-! ## Built-in functions -/

theorem formed_math (known : name ∈ mathNames) (promoted : t.isPromoted = true)
    (all : ∀ u ∈ ts, u = t) (h : Formed p env types lo hi pre values ((t :: ts).map .scalar)) :
    Formed p env types lo hi pre [.call (.math name) values] [.scalar t] := by
  refine h.join (joins_call _ _) ?_
  rw [Expr.kind?, h.kinds]
  simpa [Callee.kind?, known, promoted] using all

theorem formed_query (query : func.isQuery = true)
    (h : Formed p env types lo hi pre values [.scalar .int]) :
    Formed p env types lo hi pre [.cast .int (.call (.query func) values)] [.scalar .int] := by
  have asked : (Expr.call (.query func) values).kind? p types env = some .size := by
    rw [Expr.kind?, h.kinds]
    simp [Callee.kind?, query]
  have inner := h.join (joins_call (.query func) values) asked
  refine inner.join (joins_cast .int _) ?_
  rw [Expr.kind?, asked]
  rfl

theorem promoted_of_floating (floating : t.isFloating = true) : t.isPromoted = true := by
  revert floating
  cases t <;> decide

theorem formed_builtin (arity : ts.length = func.arity)
    (operator : Typing.builtinType func ts = .ok t)
    (h : Formed p env types lo hi pre values (ts.map .scalar)) :
    Formed p env types lo hi pre [(builtin func ts.head? values pre).value] [.scalar t] := by
  cases func
  case passId =>
    obtain rfl := eq_nil_of_length_eq_zero arity
    obtain rfl := Except.ok.inj operator
    have none : values = [] := eq_nil_of_length_eq_zero (length_of_kinds? h.kinds)
    subst none
    exact h.join (joins_call _ _) rfl
  case abs =>
    obtain ⟨u, rfl⟩ := length_eq_one_iff.mp arity
    obtain ⟨promoted, same⟩ := ite_eq_ok.mp operator
    obtain rfl := Except.ok.inj same
    cases floating : u.isFloating with
    | true =>
      have whole : Formed p env types lo hi pre [.call (.math "fabs") values] [.scalar u] :=
        formed_math (by decide) promoted (forall_mem_nil _) h
      simpa [builtin, floating] using whole
    | false =>
      have inner : Formed p env types lo hi pre [.call (.math "abs") values] [.scalar u] :=
        formed_math (by decide) promoted (forall_mem_nil _) h
      have whole := inner.join (joins_cast u _) (by rw [Expr.kind?, inner.kind]; rfl)
      simpa [builtin, floating] using whole
  case min | max =>
    obtain ⟨u, v, rfl⟩ := length_eq_two.mp arity
    obtain ⟨both, same⟩ := ite_eq_ok.mp operator
    obtain rfl := Except.ok.inj same
    obtain ⟨alike, promoted⟩ := Bool.and_eq_true_iff.mp both
    obtain rfl := of_decide_eq_true alike
    refine formed_math ?_ promoted (forall_mem_singleton.mpr rfl) h
    cases floating : u.isFloating <;> simp [floating, mathNames]
  case pow =>
    obtain ⟨u, v, rfl⟩ := length_eq_two.mp arity
    obtain ⟨both, same⟩ := ite_eq_ok.mp operator
    obtain rfl := Except.ok.inj same
    obtain ⟨alike, floating⟩ := Bool.and_eq_true_iff.mp both
    obtain rfl := of_decide_eq_true alike
    exact formed_math (by decide) (promoted_of_floating floating) (forall_mem_singleton.mpr rfl) h
  case globalId | localId | groupId | globalSize | localSize | numGroups =>
    obtain ⟨u, rfl⟩ := length_eq_one_iff.mp arity
    obtain ⟨rfl, same⟩ := ite_eq_ok.mp operator
    obtain rfl := Except.ok.inj same
    exact formed_query rfl h
  case sqrt | sin | cos | tan | exp | log | floor | ceil =>
    obtain ⟨u, rfl⟩ := length_eq_one_iff.mp arity
    obtain ⟨floating, same⟩ := ite_eq_ok.mp operator
    obtain rfl := Except.ok.inj same
    exact formed_math (by decide) (promoted_of_floating floating) (forall_mem_nil _) h

theorem fits_builtin (h : ∀ e ∈ args, Fits p d s e) (func) : Fits p d s (.builtin func args) := by
  intro result typed lengths
  obtain ⟨ts, t, rfl, arity, given, operator⟩ := typeOf_builtin typed
  have count : ts.length = args.length := valueTypes_length given
  have last : ∀ r : List Expr × List Expr, Emission (fun mid hi types em => ∀ lo,
      Formed p s.names types lo mid r.1 r.2 (ts.map .scalar) →
        Formed p s.names types lo hi em.pre [em.value] [.scalar t])
      (pure (builtin func ts.head? r.2 r.1)) := by
    refine fun r => .ret fun n types lo formed => ?_
    rw [builtin_pre]
    exact formed_builtin (count.trans arity) operator formed
  have operands := inOrder_formed (hazard args) given h lengths.tail
  cases args with
  | nil =>
    cases given
    exact operands.andThen last
  | cons e rest =>
    obtain ⟨u, us, rfl, first, -⟩ := valueTypes_cons given
    rw [expr, valueType_known first]
    exact operands.andThen last

end

/-! ## All expressions -/

section

variable {p : Program} {d : Descriptor} {s : Scope}

variable (checked : Typing.check d = .ok ()) (face : Interface p d)
include checked face

set_option linter.unusedSectionVars false in
mutual

/-- By induction on expressions; what each form adds to its parts is in the lemma of the form. -/
theorem expr_fits :
    ∀ e, Fits p d s e
  | .literal v => fits_literal v
  | .var name => fits_var name
  | .field name => fits_field face name
  | .element array index => fits_element face (expr_fits index) array
  | .length array => fits_length face array
  | .binary op lhs rhs => by
    cases circuit : op.isShortCircuit with
    | true => exact fits_logical circuit (expr_fits lhs) (expr_fits rhs)
    | false => exact fits_binary circuit (expr_fits lhs) (expr_fits rhs)
  | .unary op operand => fits_unary (expr_fits operand) op
  | .conditional cond thenValue elseValue =>
    fits_conditional (expr_fits cond) (expr_fits thenValue)
      (expr_fits elseValue)
  | .cast type value implicit => fits_cast (expr_fits value) type implicit
  | .assign target none value =>
    fits_assign face (place_fits target) (expr_fits value)
  | .assign target (some op) value =>
    fits_compound checked face (place_fits target) (expr_fits value) op
  | .step target op before => fits_step face (place_fits target) op before
  | .call method args => fits_call face (all_fit args) method
  | .atomic op ⟨name, none⟩ args => fits_atomic face (all_fit args) op name
  | .atomic op ⟨name, some index⟩ args =>
    fits_atomic face (forall_mem_cons.mpr
      ⟨@expr_fits index, all_fit args⟩) op name
  | .builtin func args => fits_builtin (all_fit args) func

theorem place_fits :
    ∀ target, FitsPlace p d s target
  | .var _ | .field _ => trivial
  | .element _ index => expr_fits index

theorem all_fit :
    ∀ es : List GridKernel.Expr, ∀ e ∈ es, Fits p d s e
  | [] => forall_mem_nil _
  | e :: rest => forall_mem_cons.mpr ⟨expr_fits e, all_fit rest⟩

end

end

end GridKernel.Target
