import GridKernel.Proofs.Lang.Parts
import GridKernel.Proofs.Typing.Inversion
import GridKernel.Target.Translate
import Mathlib.Data.List.Forall2

/-!
# Translation and the names of locals

The translation of an expression looks at the names of locals only to tell them apart and to find
their types. It commutes with every renaming that keeps them apart.
-/

namespace GridKernel

set_option linter.unusedSectionVars false

/-! ## Renamed expressions -/

mutual

/-- The expression with other names for its locals. -/
def Expr.rename (ρ : String → String) : Expr → Expr
  | .literal v => .literal v
  | .var name => .var (ρ name)
  | .field name => .field name
  | .element array index => .element array (index.rename ρ)
  | .length array => .length array
  | .binary op lhs rhs => .binary op (lhs.rename ρ) (rhs.rename ρ)
  | .unary op operand => .unary op (operand.rename ρ)
  | .conditional cond thenValue elseValue =>
    .conditional (cond.rename ρ) (thenValue.rename ρ) (elseValue.rename ρ)
  | .cast type value implicit => .cast type (value.rename ρ) implicit
  | .assign target op value => .assign (target.rename ρ) op (value.rename ρ)
  | .step target op before => .step (target.rename ρ) op before
  | .call method args => .call method (Expr.renameAll ρ args)
  | .atomic op slot args => .atomic op (slot.rename ρ) (Expr.renameAll ρ args)
  | .builtin func args => .builtin func (Expr.renameAll ρ args)

def Place.rename (ρ : String → String) : Place Expr → Place Expr
  | .var name => .var (ρ name)
  | .field name => .field name
  | .element array index => .element array (index.rename ρ)

def SlotRef.rename (ρ : String → String) : SlotRef Expr → SlotRef Expr
  | ⟨field, index⟩ => ⟨field, Expr.renameOption ρ index⟩

def Expr.renameOption (ρ : String → String) : Option Expr → Option Expr
  | none => none
  | some e => some (e.rename ρ)

def Expr.renameAll (ρ : String → String) : List Expr → List Expr
  | [] => []
  | e :: rest => e.rename ρ :: Expr.renameAll ρ rest

end

theorem Expr.renameAll_eq_map (ρ : String → String) (es) :
    Expr.renameAll ρ es = es.map (Expr.rename ρ) := by
  induction es with
  | nil => rfl
  | cons e rest ih => rw [Expr.renameAll, ih, List.map_cons]

namespace Target

mutual

def Expr.rename (ρ : String → String) : Expr → Expr
  | .literal v => .literal v
  | .var name => .var (ρ name)
  | .temp number => .temp number
  | .member name => .member name
  | .lengthOf array => .lengthOf array
  | .element array index => .element array (index.rename ρ)
  | .addressOf array index => .addressOf array (index.rename ρ)
  | .paren e => .paren (e.rename ρ)
  | .binary op lhs rhs => .binary op (lhs.rename ρ) (rhs.rename ρ)
  | .shiftUnsigned type lhs rhs => .shiftUnsigned type (lhs.rename ρ) (rhs.rename ρ)
  | .unary op operand => .unary op (operand.rename ρ)
  | .conditional cond thenValue elseValue =>
    .conditional (cond.rename ρ) (thenValue.rename ρ) (elseValue.rename ρ)
  | .cast type value => .cast type (value.rename ρ)
  | .call callee args => .call callee (Expr.renameAll ρ args)
  | .assign target value => .assign (target.rename ρ) (value.rename ρ)
  | .compound op target value => .compound op (target.rename ρ) (value.rename ρ)
  | .step op before target => .step op before (target.rename ρ)
  | .comma first value => .comma (Expr.renameAll ρ first) (value.rename ρ)

def Expr.renameAll (ρ : String → String) : List Expr → List Expr
  | [] => []
  | e :: rest => e.rename ρ :: Expr.renameAll ρ rest

end

@[simp] theorem Expr.renameAll_append (ρ : String → String) (es es') :
    Expr.renameAll ρ (es ++ es') = Expr.renameAll ρ es ++ Expr.renameAll ρ es' := by
  induction es with
  | nil => rfl
  | cons e rest ih => simp only [List.cons_append, Expr.renameAll, ih]

theorem Expr.isEmpty_renameAll (ρ : String → String) (es) :
    (Expr.renameAll ρ es).isEmpty = es.isEmpty := by
  cases es <;> rfl

namespace Emitted

def rename (ρ : String → String) (e : Emitted) : Emitted :=
  ⟨Expr.renameAll ρ e.pre, e.value.rename ρ, e.simple⟩

variable (ρ : String → String)

@[simp] theorem rename_mk (pre value simple) :
    rename ρ ⟨pre, value, simple⟩ = ⟨Expr.renameAll ρ pre, value.rename ρ, simple⟩ := rfl

@[simp] theorem pre_rename (e : Emitted) : (e.rename ρ).pre = Expr.renameAll ρ e.pre := rfl

@[simp] theorem value_rename (e : Emitted) : (e.rename ρ).value = e.value.rename ρ := rfl

@[simp] theorem operand_rename (e : Emitted) : (e.rename ρ).operand = e.operand.rename ρ := by
  unfold operand rename
  split <;> rfl

theorem inline_rename (e : Emitted) : (e.rename ρ).inline = e.inline.rename ρ := by
  unfold inline rename
  rw [Expr.isEmpty_renameAll]
  split <;> rfl

@[simp] theorem inlineOperand_rename (e : Emitted) :
    (e.rename ρ).inlineOperand = e.inlineOperand.rename ρ := by
  unfold inlineOperand
  rw [inline_rename, operand_rename, pre_rename, Expr.isEmpty_renameAll]
  split <;> rfl

end Emitted

end Target

/-! ## Types -/

/-- What succeeds on the left succeeds on the right, with the same result. -/
def Keeps {ε α : Type} (r r' : Except ε α) : Prop := ∀ a, r = .ok a → r' = .ok a

namespace Keeps

variable {ε α β : Type}

theorem refl (r : Except ε α) : Keeps r r := fun _ h => h

theorem andThen (h : Keeps r r') (next : ∀ a, Keeps (f a) (f' a)) :
    Keeps (r >>= f) (r' >>= f') := by
  intro b ended
  obtain ⟨a, first, later⟩ := Outcome.bind_eq_ok.mp ended
  exact Outcome.bind_eq_ok.mpr ⟨a, h a first, next a b later⟩

theorem failed (r : Except ε α) : Keeps (.error e) r := nofun

end Keeps

namespace Typing

variable {ρ : String → String} {d : Descriptor} {s s' : Scope}

/-- The scopes give the locals before and after the renaming the same types. -/
def Renamed (ρ : String → String) (s s' : Scope) : Prop :=
  ∀ name t, s.lookup? name = some t → s'.lookup? (ρ name) = some t

theorem asValue_keeps (h : Keeps r r') (e e') : Keeps (asValue e r) (asValue e' r') := by
  refine h.andThen fun t => ?_
  cases t with
  | none => exact .failed _
  | some t => exact .refl _

theorem expectType_keeps (h : Keeps r r') (role want) :
    Keeps (expectType role want r) (expectType role want r') :=
  h.andThen fun _ => .refl _

theorem assignType_keeps (target target' op t v) :
    Keeps (assignType target op t v) (assignType target' op t v) := by
  unfold assignType
  cases op with
  | none =>
    dsimp only
    split
    · exact .refl _
    · exact .failed _
  | some op =>
    dsimp only
    split
    · exact .failed _
    · refine (Keeps.refl _).andThen fun result => ?_
      split
      · exact .refl _
      · exact .failed _

theorem stepType_keeps (target target' op t) :
    Keeps (stepType target op t) (stepType target' op t) := by
  unfold stepType
  split
  · exact .refl _
  · exact .failed _

theorem length_renameAll (ρ : String → String) (es) : (Expr.renameAll ρ es).length = es.length := by
  simp [Expr.renameAll_eq_map]

section

variable (renamed : Renamed ρ s s')
include renamed

theorem localType_keeps (name) : Keeps (localType s name) (localType s' (ρ name)) := by
  intro t found
  exact localType_eq_ok.mpr (renamed name t (localType_eq_ok.mp found))

mutual

theorem typeOf_keeps :
    ∀ e, Keeps (typeOf d s e) (typeOf d s' (e.rename ρ))
  | .literal _ => .refl _
  | .var name => (localType_keeps renamed name).andThen fun _ => .refl _
  | .field _ => .refl _
  | .element _ index =>
    (expectType_keeps (asValue_keeps (typeOf_keeps index) _ _) _ _).andThen fun _ => .refl _
  | .length _ => .refl _
  | .binary _ lhs rhs =>
    (asValue_keeps (typeOf_keeps lhs) _ _).andThen fun _ =>
      (asValue_keeps (typeOf_keeps rhs) _ _).andThen fun _ => .refl _
  | .unary _ operand => (asValue_keeps (typeOf_keeps operand) _ _).andThen fun _ => .refl _
  | .conditional cond thenValue elseValue =>
    (expectType_keeps (asValue_keeps (typeOf_keeps cond) _ _) _ _).andThen fun _ =>
      (asValue_keeps (typeOf_keeps thenValue) _ _).andThen fun _ =>
        (asValue_keeps (typeOf_keeps elseValue) _ _).andThen fun _ => .refl _
  | .cast _ value _ => (asValue_keeps (typeOf_keeps value) _ _).andThen fun _ => .refl _
  | .assign target op value =>
    (placeType_keeps target).andThen fun t =>
      (asValue_keeps (typeOf_keeps value) _ _).andThen fun v =>
        (assignType_keeps target (target.rename ρ) op t v).andThen fun _ => .refl _
  | .step target op _ =>
    (placeType_keeps target).andThen fun t =>
      (stepType_keeps target (target.rename ρ) op t).andThen fun _ => .refl _
  | .call name args => by
    simp only [typeOf, Expr.rename, length_renameAll]
    exact (Keeps.refl _).andThen fun m =>
      (checkArgs_keeps m.params args).andThen fun _ => .refl _
  | .atomic op ⟨field, index⟩ args => by
    simp only [typeOf, Expr.rename, SlotRef.rename, length_renameAll]
    refine (Keeps.refl _).andThen fun p => ?_
    refine (checkSlotIndex_keeps _ field index).andThen fun _ => ?_
    split
    · exact .refl _
    · exact (checkOperands_keeps op _ args).andThen fun _ => .refl _
  | .builtin func args => by
    simp only [typeOf, Expr.rename, length_renameAll]
    split
    · exact .refl _
    · exact (valueTypes_keeps args).andThen fun _ => .refl _

theorem placeType_keeps :
    ∀ p, Keeps (placeType d s p) (placeType d s' (p.rename ρ))
  | .var name => localType_keeps renamed name
  | .field _ => .refl _
  | .element _ index =>
    (expectType_keeps (asValue_keeps (typeOf_keeps index) _ _) _ _).andThen fun _ => .refl _

theorem checkSlotIndex_keeps (isArray : Bool) (name : String) :
    ∀ index, Keeps (checkSlotIndex d s isArray name index)
      (checkSlotIndex d s' isArray name (Expr.renameOption ρ index))
  | none => .refl _
  | some index => by
    simp only [checkSlotIndex, Expr.renameOption]
    split
    · exact expectType_keeps (asValue_keeps (typeOf_keeps index) _ _) _ _
    · exact .refl _

theorem checkArgs_keeps :
    ∀ params args, Keeps (checkArgs d s params args) (checkArgs d s' params (Expr.renameAll ρ args))
  | _, [] => by
    simp only [checkArgs, Expr.renameAll]
    exact .refl _
  | [], _ :: _ => .refl _
  | p :: params, e :: rest =>
    (expectType_keeps (asValue_keeps (typeOf_keeps e) _ _) _ _).andThen fun _ =>
      checkArgs_keeps params rest

theorem checkOperands_keeps (op : AtomicOp) (w : SlotWidth) :
    ∀ args, Keeps (checkOperands d s op w args) (checkOperands d s' op w (Expr.renameAll ρ args))
  | [] => .refl _
  | e :: rest => by
    refine (asValue_keeps (typeOf_keeps e) _ _).andThen fun t => ?_
    split
    · exact checkOperands_keeps op w rest
    · exact .failed _

theorem valueTypes_keeps :
    ∀ args, Keeps (valueTypes d s args) (valueTypes d s' (Expr.renameAll ρ args))
  | [] => .refl _
  | e :: rest =>
    (asValue_keeps (typeOf_keeps e) _ _).andThen fun _ =>
      (valueTypes_keeps rest).andThen fun _ => .refl _

end

theorem valueType_keeps (e) : Keeps (valueType d s e) (valueType d s' (e.rename ρ)) :=
  asValue_keeps (typeOf_keeps renamed e) _ _

end

end Typing

/-! ## Effects and storage -/

theorem Expr.isLiteral_rename (ρ : String → String) (e : Expr) :
    (e.rename ρ).isLiteral = e.isLiteral := by
  cases e <;> rfl

theorem Expr.parts_rename (ρ : String → String) (e : Expr) :
    (e.rename ρ).parts = e.parts.map (Expr.rename ρ) := by
  cases e with
  | assign target | step target => cases target <;> rfl
  | atomic op slot args =>
    obtain ⟨field, index⟩ := slot
    cases index <;> simp [Expr.rename, SlotRef.rename, Expr.renameOption, Expr.parts,
      Expr.renameAll_eq_map]
  | _ => simp [Expr.rename, Expr.parts, Expr.renameAll_eq_map]

theorem Expr.hasEffects_rename (ρ : String → String) (e : Expr) :
    (e.rename ρ).hasEffects = e.hasEffects := by
  induction e using Expr.parts_induct with
  | step e inner =>
    cases e with
    | builtin func args =>
      grind [Expr.rename, Expr.hasEffects, Expr.anyEffects_eq, Expr.renameAll_eq_map, Expr.parts]
    | _ => simp_all [Expr.rename, Expr.hasEffects, Expr.parts]

theorem Expr.nodes_rename (ρ : String → String) (e : Expr) :
    (e.rename ρ).nodes = e.nodes.map (Expr.rename ρ) := by
  induction e using Expr.parts_induct with
  | step e inner =>
    rw [Expr.nodes_listed, Expr.nodes_listed e, Expr.parts_rename, List.map_cons,
      List.flatMap_map, List.map_flatMap]
    exact congrArg _ (List.flatMap_congr inner)

namespace Target

open Typing (Renamed)

variable {α β γ δ : Type} {ρ : String → String} {d : Descriptor} {s s' : Scope}

theorem sameStorage_rename (apart : Function.Injective ρ) (p q) :
    sameStorage (p.rename ρ) (q.rename ρ) = sameStorage p q := by
  cases p <;> cases q <;> simp [sameStorage, Place.rename, apart.eq_iff]

theorem assigns_rename (apart : Function.Injective ρ) (target : Place GridKernel.Expr)
    (e : GridKernel.Expr) : assigns (target.rename ρ) (e.rename ρ) = assigns target e := by
  unfold assigns
  rw [Expr.nodes_rename, List.any_map]
  congr 1
  funext node
  cases node <;> simp [GridKernel.Expr.rename, sameStorage_rename apart]

theorem hazard_rename (ρ : String → String) (es : List GridKernel.Expr) :
    hazard (GridKernel.Expr.renameAll ρ es) = hazard es := by
  simp [hazard, Expr.renameAll_eq_map, List.filter_map, Function.comp_def,
    Expr.hasEffects_rename, Expr.isLiteral_rename]

/-! ## Translations -/

/-- What is emitted on the left is emitted on the right, changed by `f`, with the same
temporaries. -/
def Carries (f : α → β) (x : Emit α) (y : Emit β) : Prop :=
  ∀ temps a temps', x temps = .ok (a, temps') → y temps = .ok (f a, temps')

namespace Carries

theorem ret (same : f a = b) : Carries f (pure a) (pure b) := by
  intro temps a' temps' ended
  cases ended
  exact same ▸ rfl

theorem andThen (h : Carries f x y) (next : ∀ a, Carries g (k a) (k' (f a))) :
    Carries g (x >>= k) (y >>= k') := by
  intro temps c temps' ended
  obtain ⟨⟨a, temps₁⟩, first, later⟩ := Outcome.bind_eq_ok.mp ended
  exact Outcome.bind_eq_ok.mpr ⟨(f a, temps₁), h _ _ _ first, next a _ _ _ later⟩

theorem allocates (ρ : String → String) (type) :
    Carries (Expr.rename ρ) (fresh type) (fresh type) := by
  intro temps e temps' ended
  cases ended
  rfl

theorem types (h : Keeps r r') : Carries id (typed r) (typed r') := by
  intro temps a temps' ended
  cases r with
  | error e => cases ended
  | ok a' =>
    cases ended
    rw [h a rfl]
    rfl

end Carries

attribute [local simp] Expr.rename Expr.renameAll

@[simp] theorem combine_rename (ρ : String → String) (op t l r pre) :
    (combine op t l r pre).rename ρ =
      combine op t (l.rename ρ) (r.rename ρ) (Expr.renameAll ρ pre) := by
  cases op with
  | rem =>
    simp only [combine]
    split <;> rfl
  | _ => rfl

theorem castTo_rename (ρ : String → String) (source type e) :
    (castTo source type e).rename ρ = castTo source type (e.rename ρ) := by
  unfold castTo
  split
  · cases type <;> rfl
  · rw [Emitted.operand_rename]
    rfl

theorem builtin_rename (ρ : String → String) (func t args pre) :
    (builtin func t args pre).rename ρ =
      builtin func t (Expr.renameAll ρ args) (Expr.renameAll ρ pre) := by
  cases func with
  | abs =>
    simp only [builtin]
    split <;> rfl
  | _ => rfl

theorem stepElement_carries (ρ : String → String) (op before type array index) :
    Carries (Emitted.rename ρ) (stepElement op before type array index)
      (stepElement op before type array (index.rename ρ)) := by
  refine (Carries.allocates ρ .int).andThen fun i => ?_
  cases before with
  | true =>
    refine .ret ?_
    simp
  | false =>
    refine (Carries.allocates ρ type).andThen fun old => .ret ?_
    simp

theorem atomicCall_carries (ρ : String → String) (op w pointer args pre) :
    Carries (Emitted.rename ρ) (atomicCall op w pointer args pre)
      (atomicCall op w (pointer.rename ρ) (Expr.renameAll ρ args) (Expr.renameAll ρ pre)) := by
  cases op with
  | set =>
    cases args with
    | nil => exact .ret rfl
    | cons value rest =>
      refine (Carries.allocates ρ w.scalar).andThen fun temp => .ret ?_
      simp
  | _ => exact .ret rfl

variable (apart : Function.Injective ρ) (renamed : Renamed ρ s s')

section

include renamed

theorem keep_carries (hoist e) (h : Carries (Emitted.rename ρ) x y) :
    Carries (Emitted.rename ρ) (keep d s hoist e x) (keep d s' hoist (e.rename ρ) y) := by
  refine h.andThen fun r => ?_
  cases hoist with
  | false => exact .ret rfl
  | true =>
    refine (Carries.types (Typing.valueType_keeps renamed e)).andThen fun t => ?_
    refine (Carries.allocates ρ t).andThen fun temp => .ret ?_
    simp

/-- Operands whose translations are carried over one by one. -/
abbrev CarriesAll (ρ : String → String)
    (xs ys : List (GridKernel.Expr × Emit Emitted)) : Prop :=
  List.Forall₂ (fun x y => y.1 = x.1.rename ρ ∧ Carries (Emitted.rename ρ) x.2 y.2) xs ys

theorem inOrder_carries (hoist) (h : CarriesAll ρ xs ys) :
    Carries (Prod.map (Expr.renameAll ρ) (Expr.renameAll ρ)) (inOrder d s hoist xs)
      (inOrder d s' hoist ys) := by
  induction h with
  | nil => exact .ret rfl
  | @cons x y rest rest' first others ih =>
    obtain ⟨e, emits⟩ := x
    obtain ⟨e', translated'⟩ := y
    obtain ⟨rfl, carried⟩ := first
    cases others with
    | nil => exact carried.andThen fun r => .ret rfl
    | cons second others =>
      simp only [inOrder, Expr.isLiteral_rename]
      refine (keep_carries renamed _ e carried).andThen fun r => ih.andThen fun p => .ret ?_
      simp

theorem store_carries (conflict value pre target v) :
    Carries (Emitted.rename ρ) (store d s conflict value pre target v)
      (store d s' conflict (value.rename ρ) (Expr.renameAll ρ pre) (target.rename ρ)
        (v.rename ρ)) := by
  unfold store
  split
  · refine (Carries.types (Typing.valueType_keeps renamed value)).andThen fun t => ?_
    refine (Carries.allocates ρ t).andThen fun temp => .ret ?_
    simp
  · exact .ret rfl

theorem update_carries (op : BinaryOp) (t : ScalarType) (value : GridKernel.Expr)
    (h : Carries (Emitted.rename ρ) x y) (pre : List Expr) (target : Expr) :
    Carries (Emitted.rename ρ) (update d s op t value x pre target)
      (update d s' op t (value.rename ρ) y (Expr.renameAll ρ pre) (target.rename ρ)) := by
  unfold update
  rw [Expr.hasEffects_rename]
  split
  · refine (Carries.allocates ρ t).andThen fun old => ?_
    refine (Carries.types (Typing.valueType_keeps renamed value)).andThen fun type => ?_
    refine h.andThen fun r => (Carries.allocates ρ type).andThen fun new => .ret ?_
    simp [-Emitted.value_rename, ← Emitted.value_rename]
  · refine h.andThen fun r => ?_
    split
    · refine .ret ?_
      simp
    · refine .ret ?_
      simp [-Emitted.value_rename, ← Emitted.value_rename]

theorem builtinCall_carries (hoist) (h : CarriesAll ρ xs ys) (func t) :
    Carries (Emitted.rename ρ)
      (inOrder d s hoist xs >>= fun p => pure (builtin func t p.2 p.1))
      (inOrder d s' hoist ys >>= fun p => pure (builtin func t p.2 p.1)) :=
  (inOrder_carries renamed hoist h).andThen fun p => .ret (builtin_rename ρ func t p.2 p.1)

end

/-! ## Expressions -/

include apart renamed

mutual

/-- By induction on expressions; what is kept and what is hoisted does not depend on names. -/
theorem expr_carries :
    ∀ e, Carries (Emitted.rename ρ) (expr d s e) (expr d s' (e.rename ρ))
  | .literal _ | .var _ | .field _ | .length _ => .ret rfl
  | .element _ index => (expr_carries index).andThen fun _ => .ret rfl
  | .binary op lhs rhs => by
    simp only [expr, GridKernel.Expr.rename]
    split
    · refine (expr_carries lhs).andThen fun l => ?_
      refine (expr_carries rhs).andThen fun r => .ret ?_
      simp
    · refine (Carries.types (Typing.valueType_keeps renamed lhs)).andThen fun t => ?_
      have same : hazard [lhs.rename ρ, rhs.rename ρ] = hazard [lhs, rhs] :=
        hazard_rename ρ [lhs, rhs]
      rw [same, Expr.isLiteral_rename]
      refine (keep_carries renamed _ lhs (expr_carries lhs)).andThen fun l => ?_
      refine (expr_carries rhs).andThen fun r => .ret ?_
      simp
  | .unary _ operand => by
    refine (expr_carries operand).andThen fun e => .ret ?_
    simp
  | .conditional cond thenValue elseValue => by
    refine (expr_carries cond).andThen fun c => ?_
    refine (expr_carries thenValue).andThen fun t => ?_
    refine (expr_carries elseValue).andThen fun e => .ret ?_
    simp
  | .cast type value _ =>
    (Carries.types (Typing.valueType_keeps renamed value)).andThen fun source =>
      (expr_carries value).andThen fun e => .ret (castTo_rename ρ source type e)
  | .assign target none value => by
    simp only [expr, GridKernel.Expr.rename, assigns_rename apart]
    exact assign_carries value _ (expr_carries value) target
  | .assign target (some op) value => by
    simp only [expr, GridKernel.Expr.rename, Expr.hasEffects_rename]
    refine (Carries.types (Typing.placeType_keeps renamed target)).andThen fun t => ?_
    refine (place_carries _ target).andThen fun p => ?_
    exact update_carries renamed op t value (expr_carries value) p.1 p.2
  | .step target op before => step_carries op before target
  | .call method args => by
    simp only [expr, GridKernel.Expr.rename, hazard_rename]
    exact (inOrder_carries renamed _ (operands_carries args)).andThen
      fun p => .ret rfl
  | .atomic op ⟨name, index⟩ args => by
    simp only [expr, GridKernel.Expr.rename, SlotRef.rename]
    refine (Carries.types (Keeps.refl _)).andThen fun p => ?_
    refine (slotIndex_carries args (operands_carries args) name
      index).andThen fun q => ?_
    exact atomicCall_carries ρ op p.2 q.2.1 q.2.2 q.1
  | .builtin func args => by
    simp only [expr, GridKernel.Expr.rename, hazard_rename]
    have call := builtinCall_carries (d := d) renamed (hazard args)
      (operands_carries args) func
    cases args with
    | nil => exact call none
    | cons e rest =>
      exact (Carries.types (Typing.valueType_keeps renamed e)).andThen fun t => call (some t)

theorem assign_carries
    (value : GridKernel.Expr) (conflict : Bool) {x y : Emit Emitted}
    (h : Carries (Emitted.rename ρ) x y) :
    ∀ target, Carries (Emitted.rename ρ) (assign d s value conflict x target)
      (assign d s' (value.rename ρ) conflict y (target.rename ρ))
  | .var name => h.andThen fun v => store_carries renamed conflict value v.pre (.var name) v.value
  | .field name =>
    h.andThen fun v => store_carries renamed conflict value v.pre (.member name) v.value
  | .element array index => by
    have same : hazard [index.rename ρ, value.rename ρ] = hazard [index, value] :=
      hazard_rename ρ [index, value]
    simp only [assign, Place.rename, same, Expr.isLiteral_rename]
    refine (keep_carries renamed _ index (expr_carries index)).andThen fun i => ?_
    refine h.andThen fun v => ?_
    have stored := store_carries (d := d) renamed conflict value (i.pre ++ v.pre)
      (.element array i.value) v.value
    rwa [Expr.renameAll_append] at stored

theorem place_carries (effects : Bool) :
    ∀ p, Carries (Prod.map (Expr.renameAll ρ) (Expr.rename ρ)) (place d s effects p)
      (place d s' effects (p.rename ρ))
  | .var _ | .field _ => .ret rfl
  | .element array index => by
    simp only [place, Place.rename, Expr.hasEffects_rename,
      Expr.isLiteral_rename]
    refine (expr_carries index).andThen fun i => ?_
    split
    · refine (Carries.allocates ρ .int).andThen fun temp => .ret ?_
      simp
    · exact .ret rfl

theorem step_carries (op : StepOp)
    (before : Bool) :
    ∀ target, Carries (Emitted.rename ρ) (step d s op before target)
      (step d s' op before (target.rename ρ))
  | .var _ | .field _ => .ret rfl
  | .element array index => by
    simp only [step, Place.rename, Expr.hasEffects_rename]
    refine (expr_carries index).andThen fun i => ?_
    split
    · refine (Carries.types (Keeps.refl _)).andThen fun type => ?_
      exact stepElement_carries ρ op before type array i
    · exact .ret rfl

theorem slotIndex_carries
    (args : List GridKernel.Expr) {xs ys : List (GridKernel.Expr × Emit Emitted)}
    (h : CarriesAll ρ xs ys) (name : String) :
    ∀ index, Carries (Prod.map (Expr.renameAll ρ) (Prod.map (Expr.rename ρ) (Expr.renameAll ρ)))
      (slotIndex d s args xs name index)
      (slotIndex d s' (GridKernel.Expr.renameAll ρ args) ys name
        (GridKernel.Expr.renameOption ρ index))
  | none => by
    simp only [slotIndex, GridKernel.Expr.renameOption, hazard_rename]
    exact (inOrder_carries renamed _ h).andThen fun p => .ret rfl
  | some index => by
    have same : hazard (index.rename ρ :: GridKernel.Expr.renameAll ρ args) =
      hazard (index :: args) := hazard_rename ρ (index :: args)
    have empty : (GridKernel.Expr.renameAll ρ args).isEmpty = args.isEmpty := by
      cases args <;> rfl
    simp only [slotIndex, GridKernel.Expr.renameOption, same, empty,
      Expr.isLiteral_rename]
    refine (keep_carries renamed _ index (expr_carries index)).andThen fun i => ?_
    refine (inOrder_carries renamed _ h).andThen fun p => .ret ?_
    simp

theorem operands_carries :
    ∀ es, CarriesAll ρ (operands d s es) (operands d s' (GridKernel.Expr.renameAll ρ es))
  | [] => .nil
  | e :: rest => .cons ⟨rfl, expr_carries e⟩ (operands_carries rest)

end

end Target

end GridKernel
