import GridKernel.Proofs.Eval.Ensures
import GridKernel.Proofs.Memory.Shape
import GridKernel.Proofs.Typing.Inversion
import GridKernel.Proofs.Typing.Operators

/-!
# States that match a scope

`Holds c names callers m` ties a running work-item to what the checker knows of it: its locals are
the declared ones, in order and with values of their types, and so are the scalar fields it wrote;
every field is bound to something that fits. The operations of the machine keep it.
-/

namespace GridKernel

open List Ensures

variable {name : String} {f : Field}

/-- Fields are found by their index as they are found by their name. -/
theorem Descriptor.fieldIndex_of_field {d : Descriptor} (h : d.field? name = some f) :
    ∃ i, d.fieldIndex? name = some i ∧ d.fields[i]? = some f := by
  unfold Descriptor.field? at h
  unfold Descriptor.fieldIndex?
  generalize d.fields = fields at h ⊢
  induction fields with
  | nil => cases h
  | cons g rest ih =>
    rw [find?_cons] at h
    rw [findIdx?_cons]
    cases named : g.name == name with
    | true =>
      rw [named] at h
      cases h
      exact ⟨0, rfl, rfl⟩
    | false =>
      rw [named] at h
      obtain ⟨i, index, found⟩ := ih h
      exact ⟨i + 1, by simp [index], found⟩

namespace Scope

/-- The names in sight, the innermost first. -/
def names (s : Scope) : ScopeFrame := s.frames.flatten

theorem lookup?_eq (s : Scope) (name) : s.lookup? name = s.names.lookup name := by
  unfold lookup? names
  induction s.frames with
  | nil => rfl
  | cons frame rest ih =>
    rw [findSome?_cons, flatten_cons, lookup_append, ih]
    cases frame.lookup name <;> rfl

@[simp] theorem names_push (s : Scope) : s.push.names = s.names := rfl

theorem names_declare {s : Scope} (fresh : s.declares name = false) (t) :
    (s.declare name t).names = (name, t) :: s.names := by
  obtain ⟨frames⟩ := s
  cases frames with
  | nil => cases fresh
  | cons frame rest => rfl

/-- The parameters are in one block. -/
theorem ofMethod_eq (m) : ofMethod m = ⟨[(m.params.map fun p => (p.name, p.type)).reverse]⟩ := by
  have declared : ∀ (params : List Param) (frame : ScopeFrame),
      params.foldl (fun s p => s.declare p.name p.type) ⟨[frame]⟩ =
        (⟨[(params.map fun p => (p.name, p.type)).reverse ++ frame]⟩ : Scope) := by
    intro params
    induction params with
    | nil => intro frame; rfl
    | cons p rest ih =>
      intro frame
      rw [foldl_cons]
      refine (ih ((p.name, p.type) :: frame)).trans ?_
      simp
  simpa [ofMethod] using declared m.params []

theorem names_ofMethod (m) :
    (ofMethod m).names = (m.params.map fun p => (p.name, p.type)).reverse := by
  rw [ofMethod_eq]
  exact append_nil _

end Scope

namespace Eval

/-- The names of a frame with the types of their values. -/
def Frame.types (f : Frame) : ScopeFrame := f.map fun p => (p.1, p.2.type)

variable {v : Value}

namespace Frame

theorem lookup_types (f : Frame) (name) : f.types.lookup name = (f.lookup name).map Value.type := by
  induction f with
  | nil => rfl
  | cons p rest ih =>
    obtain ⟨n, v⟩ := p
    change List.lookup name ((n, v.type) :: Frame.types rest) = _
    rw [lookup_cons, lookup_cons, ih]
    cases name == n <;> rfl

theorem length_types (f : Frame) : f.types.length = f.length := length_map _

/-- A local that is there can be given another value of its type. -/
theorem assignLocal_types {f : Frame} (h : f.types.lookup name = some v.type) :
    ∃ f', assignLocal name v f = some f' ∧ f'.types = f.types := by
  induction f with
  | nil => cases h
  | cons p rest ih =>
    obtain ⟨n, old⟩ := p
    change List.lookup name ((n, old.type) :: Frame.types rest) = _ at h
    rw [lookup_cons] at h
    unfold assignLocal
    by_cases same : n = name
    · subst same
      rw [beq_self_eq_true] at h
      rw [if_pos rfl]
      exact ⟨_, rfl, by simp [types, Option.some.inj h]⟩
    · rw [beq_false_of_ne (Ne.symm same)] at h
      obtain ⟨f', assigned, types'⟩ := ih h
      rw [if_neg same, assigned]
      exact ⟨(n, old) :: f', rfl, congrArg (List.cons (n, old.type)) types'⟩

end Frame

theorem lookup_filter_ne {α : Type} {l : List (Nat × α)} {i j : Nat} {a : α}
    (h : (l.filter (·.1 ≠ i)).lookup j = some a) : l.lookup j = some a := by
  induction l with
  | nil => cases h
  | cons p rest ih =>
    obtain ⟨k, b⟩ := p
    rw [filter_cons] at h
    split at h
    · rw [lookup_cons] at h ⊢
      cases same : j == k with
      | true => simpa [same] using h
      | false => exact ih (by simpa [same] using h)
    · rename_i removed
      have gone : k = i := by simpa using removed
      subst gone
      rw [lookup_cons]
      cases same : j == k with
      | true =>
        exfalso
        obtain rfl := eq_of_beq same
        obtain ⟨before, after, parts, -⟩ := lookup_eq_some_iff.mp h
        have member : (j, a) ∈ before ++ (j, a) :: after := by simp
        rw [← parts] at member
        simp at member
      | false => exact ih h

/-- A field without slots that holds a single value of a type. -/
def IsScalar (d : Descriptor) (i : Nat) (t : ScalarType) : Prop :=
  ∃ f, d.fields[i]? = some f ∧ f.isArray = false ∧ f.element = .scalar t

structure Holds (c : Context) (names : ScopeFrame) (callers : Frame) (m : Machine) : Prop where
  frame : m.frame = callers.length
  locals : m.current.types = names
  callers : m.suspended = callers
  /-- A scalar field that was written holds a value of its type. -/
  scalars : ∀ {i : Nat} {v : Value}, m.scalars.lookup i = some v → IsScalar c.descriptor i v.type
  fits : Bound.AllFit c.descriptor.fields c.bound m.memory

/-- A void method that an update of a `for` calls. -/
def VoidUpdate (d : Descriptor) (name : String) : Prop :=
  (∃ m ∈ d.methods, ∃ init cond update body args,
    Stmt.forLoop init cond update body ∈ Stmt.flattenAll m.body ∧ Expr.call name args ∈ update) ∧
  ∃ m, d.method? name = some m ∧ m.ret = none

/-- Why a checked kernel stops early. -/
inductive Allowed (d : Descriptor) : Stop → Prop
  | exhausted : Allowed d .exhausted
  | outOfBounds (index : Int64) (name : String) (size : Nat) :
      Allowed d (.trap (.outOfBounds index name size))
  | divisionByZero : Allowed d (.trap .divisionByZero)
  | voidUpdate {name : String} (h : VoidUpdate d name) : Allowed d (.trap (.voidValue name))

/-- From `m`, a computation ends as `done` says, or for one of the reasons of checked kernels. -/
def Safe {α : Type} (c : Context) (x : Comp α) (m : Machine) (done : α → Machine → Prop) : Prop :=
  Ensures x m done fun stop _ => Allowed c.descriptor stop

variable {c : Context} {names : ScopeFrame} {callers : Frame} {m : Machine}

/-! ## Locals -/

variable {t : ScalarType}

theorem Holds.split (h : Holds c names callers m) : m.locals = m.current ++ callers := by
  rw [← h.callers]
  exact (take_append_drop _ m.locals).symm

theorem Holds.length_eq (h : Holds c names callers m) :
    m.locals.length = names.length + callers.length := by
  rw [h.split, length_append, ← h.locals, Frame.length_types]

/-- The locals of the running method are those above the locals of its callers. -/
theorem Holds.of_split {f : Frame} (split : m.locals = f ++ callers)
    (frame : m.frame = callers.length) (types : f.types = names)
    (scalars : ∀ {i v}, m.scalars.lookup i = some v → IsScalar c.descriptor i v.type)
    (fits : Bound.AllFit c.descriptor.fields c.bound m.memory) : Holds c names callers m := by
  have above : m.locals.length - m.frame = f.length := by
    rw [split, frame, length_append, Nat.add_sub_cancel]
  refine ⟨frame, ?_, ?_, scalars, fits⟩
  · rw [Machine.current, above, split, take_left, types]
  · rw [Machine.suspended, above, split, drop_left]

/-- Leaving a block drops what was declared in it. -/
theorem enclosed_safe {α : Type} {x : Comp α} {P : α → Prop} (h : Holds c names callers m)
    (body : Safe c x m fun a m₁ => P a ∧ ∃ inner, Holds c (inner ++ names) callers m₁) :
    Safe c (enclosed x) m fun a m' => P a ∧ Holds c names callers m' := by
  refine Ensures.enclosed (body.mono ?_)
  rintro a m₁ ⟨result, inner, h₁⟩
  have above : m₁.locals.length - m.locals.length = inner.length := by
    rw [h₁.length_eq, h.length_eq, length_append]
    omega
  have size : m₁.current.length = inner.length + names.length := by
    rw [← Frame.length_types, h₁.locals, length_append]
  have types : Frame.types (m₁.current.drop inner.length) = names := by
    rw [Frame.types, map_drop]
    change (m₁.current.types).drop inner.length = names
    rw [h₁.locals, drop_left]
  refine ⟨result, .of_split ?_ h₁.frame types h₁.scalars h₁.fits⟩
  dsimp only
  rw [above, h₁.split, drop_append_of_le_length (by omega)]

/-- A method begins with its parameters above all locals that there are. -/
theorem Holds.enter (h : Holds c names callers m) (params : Frame) :
    Holds c params.types m.locals
      { m with locals := params ++ m.locals, frame := m.locals.length } :=
  .of_split rfl rfl rfl h.scalars h.fits

/-- And its end leaves those. -/
theorem framed_safe {α : Type} {x : Comp α} {P : α → Prop} {params : Frame}
    (h : Holds c names callers m)
    (body : ∀ {m₁}, Holds c params.types m.locals m₁ →
      Safe c x m₁ fun a m₂ => P a ∧ ∃ inner, Holds c inner m.locals m₂) :
    Safe c (framed params x) m fun a m' => P a ∧ Holds c names callers m' := by
  refine Ensures.framed ((body (h.enter params)).mono ?_)
  rintro a m₂ ⟨result, inner, h₂⟩
  exact ⟨result, .of_split (h₂.callers.trans h.split) h.frame h.locals h₂.scalars h₂.fits⟩

theorem frameOf_types (typed : args.map Value.type = method.params.map Param.type) :
    (frameOf method args).types = (Scope.ofMethod method).names := by
  rw [Scope.names_ofMethod]
  unfold frameOf Frame.types
  rw [map_reverse]
  refine congrArg List.reverse ?_
  generalize method.params = params at typed ⊢
  induction params generalizing args with
  | nil => cases args <;> rfl
  | cons p rest ih =>
    cases args with
    | nil => cases typed
    | cons v args =>
      rw [map_cons, map_cons, List.cons.injEq] at typed
      simp only [map_cons, zip_cons_cons, typed.1, ih typed.2]

theorem checkIndex_safe (name index size) :
    Safe c (checkIndex name index size) m fun i m' => m' = m ∧ i < size := by
  unfold checkIndex
  dsimp only
  split
  · rename_i inBounds
    simp only [Bool.and_eq_true, decide_eq_true_eq] at inBounds
    exact ret ⟨rfl, by omega⟩
  · exact trapped (.outOfBounds _ _ _)

variable (h : Holds c names callers m)
include h

theorem readLocal_safe (declared : names.lookup name = some t) :
    Safe c (readLocal name) m fun v m' => v.type = t ∧ m' = m := by
  rw [← h.locals, Frame.lookup_types] at declared
  obtain ⟨v, found, type⟩ := Option.map_eq_some_iff.mp declared
  refine fromState ?_
  simp only [found]
  exact ret ⟨type, rfl⟩

theorem writeLocal_safe (declared : names.lookup name = some v.type) :
    Safe c (writeLocal name v) m fun _ m' => Holds c names callers m' := by
  rw [← h.locals] at declared
  obtain ⟨f', assigned, types'⟩ := Frame.assignLocal_types declared
  refine fromState ?_
  simp only [assigned]
  exact modified (.of_split (congrArg (f' ++ ·) h.callers) h.frame (types'.trans h.locals) h.scalars
    h.fits)

theorem declareLocal_safe (v) :
    Safe c (declareLocal name v) m fun _ m' => Holds c ((name, v.type) :: names) callers m' :=
  modified (.of_split (f := (name, v) :: m.current) (congrArg ((name, v) :: ·) h.split) h.frame
    (congrArg ((name, v.type) :: ·) h.locals) h.scalars h.fits)

/-! ## Fields -/

theorem binding_safe (declared : c.descriptor.field? name = some f) :
    Safe c (binding c name) m fun found m' => m' = m ∧
      c.descriptor.fieldIndex? name = some found.1 ∧ c.descriptor.fields[found.1]? = some f ∧
      found.2.Fits m.memory f := by
  obtain ⟨i, index, found⟩ := Descriptor.fieldIndex_of_field declared
  obtain ⟨b, bound, fits⟩ := h.fits found
  unfold binding
  simp only [index, bound]
  exact ret ⟨rfl, rfl, found, fits⟩

theorem readScalar_safe (typed : Typing.scalarType c.descriptor name = .ok t) :
    Safe c (readScalar c name) m fun v m' => v.type = t ∧ m' = m := by
  obtain ⟨f, declared, single, element⟩ := Typing.scalarType_eq_ok.mp typed
  refine andThen (binding_safe h declared) ?_
  rintro ⟨i, b⟩ _ ⟨rfl, -, found, fits⟩
  refine fromState ?_
  split
  · rename_i v written
    obtain ⟨g, found', -, element'⟩ := h.scalars written
    obtain rfl : f = g := Option.some.inj (found.symm.trans found')
    exact ret ⟨ElementType.scalar.inj (element'.symm.trans element), rfl⟩
  · obtain ⟨v, rfl, type⟩ := fits.of_scalar single element
    exact ret ⟨type, rfl⟩

theorem writeScalar_safe (scalar : IsScalar c.descriptor i v.type) :
    Safe c (writeScalar i v) m fun _ m' => Holds c names callers m' := by
  refine modified ⟨h.frame, h.locals, h.callers, ?_, h.fits⟩
  intro j w written
  rw [lookup_cons] at written
  cases same : j == i with
  | true =>
    rw [same] at written
    obtain rfl := Option.some.inj written
    rw [eq_of_beq same]
    exact scalar
  | false =>
    rw [same] at written
    exact h.scalars (lookup_filter_ne written)

theorem Holds.setMemory (keeps : m.memory.Keeps memory) :
    Holds c names callers { m with memory := memory } where
  locals := h.locals
  callers := h.callers
  frame := h.frame
  scalars := h.scalars
  fits := keeps.allFit h.fits

section

variable (typed : Typing.arrayType c.descriptor name = .ok t)
include typed

/-- The buffer of an array field. -/
theorem arrayOf_safe :
    Safe c (arrayOf c name) m fun id m' => m' = m ∧
      ∃ b, m.memory.buffers[id]? = some b ∧ b.type = t := by
  obtain ⟨f, declared, many, element⟩ := Typing.arrayType_eq_ok.mp typed
  refine andThen (binding_safe h declared) ?_
  rintro ⟨i, b⟩ _ ⟨rfl, -, -, fits⟩
  obtain ⟨id, buffer, rfl, held, type⟩ := fits.of_array many element
  exact ret ⟨rfl, buffer, held, type⟩

theorem arraySize_safe : Safe c (arraySize c name) m fun _ m' => m' = m := by
  refine andThen (arrayOf_safe h typed) ?_
  rintro id _ ⟨rfl, b, held, -⟩
  refine fromState ?_
  simp only [held]
  exact ret rfl

theorem readElement_safe (i) : Safe c (readElement c name i) m fun v m' => v.type = t ∧ m' = m := by
  refine andThen (arrayOf_safe h typed) ?_
  rintro id _ ⟨rfl, b, held, type⟩
  refine fromState ?_
  simp only [held, Buffer.load?]
  cases b.cells[i]? with
  | none => exact trapped (.outOfBounds _ _ _)
  | some bits => exact ret ⟨(Value.type_ofBits _ _).trans type, rfl⟩

theorem writeElement_safe (i v) :
    Safe c (writeElement c name i v) m fun _ m' => Holds c names callers m' := by
  refine andThen (arrayOf_safe h typed) ?_
  rintro id _ ⟨rfl, -⟩
  exact modified (h.setMemory (Memory.store_keeps _ _ _ _))

end

theorem lengthOf_safe (declared : c.descriptor.field? name = some f) (many : f.isArray = true) :
    Safe c (lengthOf c name) m fun v m' => v.type = .int ∧ m' = m := by
  refine andThen (binding_safe h declared) ?_
  rintro ⟨i, b⟩ _ ⟨rfl, -, -, fits⟩
  refine fromState ?_
  cases fits with
  | scalar single => rw [many] at single; cases single
  | array _ _ held | slots _ _ _ held =>
    simp only [held]
    exact ret ⟨rfl, rfl⟩

/-- An index is given exactly for a slot of an array. -/
def NamesSlot (f : Field) (index : Option Value) : Prop := index.isSome = f.isArray

theorem performAtomic_safe (declared : c.descriptor.field? name = some f)
    (element : f.element = .atomic w) (named : NamesSlot f index) (operands) :
    Safe c (performAtomic c op name index operands) m fun v m' =>
      v.type = w.scalar ∧ Holds c names callers m' := by
  refine andThen (binding_safe h declared) ?_
  rintro ⟨i, b⟩ m ⟨rfl, -, -, fits⟩
  obtain ⟨id, s, rfl, held, width, -, single⟩ := fits.of_atomic element
  refine fromState ?_
  simp only [held]
  -- The slot is there: an index is checked, and a field that needs none has a slot.
  have performed : ∀ slot, slot < s.size → Safe c (performAt op name operands id s slot) m
      fun v m' => v.type = w.scalar ∧ Holds c names callers m' := by
    intro slot inBounds
    have cell : s.cells[slot]? = some s.cells[slot] := Array.getElem?_eq_getElem inBounds
    have done : ∃ after result, s.perform? slot op operands = some (after, result) := by
      simp [SlotArray.perform?, SlotArray.get?, cell]
    obtain ⟨after, result, done⟩ := done
    simp only [performAt, done]
    have type : (Value.ofInteger s.width.scalar result).type = w.scalar := by
      rw [Value.type_ofInteger, width]
    exact changed (ret ⟨type, h.setMemory (Memory.perform_keeps held done)⟩)
  cases index with
  | none => exact performed 0 (single named.symm)
  | some v =>
    refine andThen (checkIndex_safe name v s.size) ?_
    rintro slot _ ⟨rfl, inBounds⟩
    exact performed slot inBounds

/-! ## Locations -/

/-- A location that holds values of a type. -/
def Location.Typed (d : Descriptor) (names : ScopeFrame) (t : ScalarType) : Location → Prop
  | .var name => names.lookup name = some t
  | .field i name => d.fieldIndex? name = some i ∧ Typing.scalarType d name = .ok t
  | .element array _ => Typing.arrayType d array = .ok t

theorem readLocation_safe (typed : l.Typed c.descriptor names t) :
    Safe c (readLocation c l) m fun v m' => v.type = t ∧ m' = m := by
  cases l with
  | var name => exact readLocal_safe h typed
  | field i name => exact readScalar_safe h typed.2
  | element array i => exact readElement_safe h typed i

theorem writeLocation_safe (typed : l.Typed c.descriptor names v.type) :
    Safe c (writeLocation c v l) m fun _ m' => Holds c names callers m' := by
  cases l with
  | var name => exact writeLocal_safe h typed
  | field i name =>
    obtain ⟨index, scalar⟩ := typed
    obtain ⟨f, declared, single, element⟩ := Typing.scalarType_eq_ok.mp scalar
    obtain ⟨j, index', found⟩ := Descriptor.fieldIndex_of_field declared
    obtain rfl : i = j := Option.some.inj (index.symm.trans index')
    exact writeScalar_safe h ⟨f, found, single, element⟩
  | element array i => exact writeElement_safe h typed i v

end Eval

end GridKernel
