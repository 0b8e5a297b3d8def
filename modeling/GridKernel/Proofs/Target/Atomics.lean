import GridKernel.Proofs.Target.Calls

/-!
# Atomic operations

The index of a slot and the operands of the operation are operands of one call. A store is an
exchange whose result is what was stored; it is kept in a temporary first. A read is an `or` with
zero.
-/

namespace GridKernel.Target

open List Option Typing
open Eval (Context Machine Holds)
open Typing (typeOf valueType check)

/-! ## Slots -/

section

variable {c : Context} {callers : Eval.Frame} {m m' : Machine} {name : String} {f : Field}
  {w : SlotWidth} {index : Option Value} {operands : List Int64} {v : Value}

/-- The slot that an operation is on, of which only the outcome of the operation matters. -/
theorem performAtomic_slot (holds : Holds c names callers m)
    (declared : c.descriptor.field? name = some f) (element : f.element = .atomic w)
    (ended : Eval.performAtomic c op name index operands m = .ok v m') :
    ∃ current, w.wrap current = current ∧
      v = Value.ofInteger w.scalar (op.apply w current operands).2 ∧
      ∀ {op' operands'}, (op'.apply w current operands').1 = (op.apply w current operands).1 →
        Eval.performAtomic c op' name index operands' m =
          .ok (Value.ofInteger w.scalar (op'.apply w current operands').2) m' := by
  obtain ⟨j, b, -, fits, bound⟩ := binding_of_holds holds declared
  obtain ⟨id, slots, rfl, held, rfl, canonical, -⟩ := fits.of_atomic element
  have performs : ∀ op operands, Eval.performAtomic c op name index operands m = _ :=
    Eval.performAtomic_eq (bound m) held
  rw [performs] at ended
  obtain ⟨i, m₁, located, rest⟩ := bind_ok ended
  have still : m₁ = m := by
    cases index with
    | none =>
      cases located
      rfl
    | some u => exact (Eval.Reads.checks name u slots.size).state located
  subst still
  unfold Eval.performAt at rest
  cases outcome : slots.perform? i op operands with
  | none =>
    rw [outcome] at rest
    cases rest
  | some pair =>
    obtain ⟨after, result⟩ := pair
    rw [outcome] at rest
    cases rest
    obtain ⟨current, cell, rfl, rfl⟩ := SlotArray.perform?_eq_some outcome
    refine ⟨current, canonical current (Array.mem_of_getElem? cell), rfl, ?_⟩
    intro op' operands' same
    let stored := (op.apply slots.width current operands).1
    have outcome' : slots.perform? i op' operands' =
        some ({ slots with cells := slots.cells.setIfInBounds i stored },
          (op'.apply slots.width current operands').2) := by
      rw [show stored = (op'.apply slots.width current operands').1 from same.symm]
      simp [SlotArray.perform?, SlotArray.get?, cell]
    rw [performs, bind_of_ok located, Eval.performAt, outcome']
    rfl

/-- A read is an `or` with zero. -/
theorem read_by_or (holds : Holds c names callers m)
    (declared : c.descriptor.field? name = some f) (element : f.element = .atomic w)
    (ended : Eval.performAtomic c .get name index operands m = .ok v m') :
    Eval.performAtomic c .or name index [0] m = .ok v m' := by
  obtain ⟨current, wrapped, rfl, same⟩ := performAtomic_slot holds declared element ended
  refine same ?_
  change w.wrap (current ||| w.wrap 0) = current
  have zero : w.wrap 0 = 0 := by cases w <;> rfl
  rw [zero, Int64.or_zero, wrapped]

/-- A store is an exchange, and it returns what was stored. -/
theorem store_by_exchange (holds : Holds c names callers m)
    (declared : c.descriptor.field? name = some f) (element : f.element = .atomic w)
    (ended : Eval.performAtomic c .set name index [i] m = .ok v m') :
    v = Value.ofInteger w.scalar (w.wrap i) ∧
      ∃ old, Eval.performAtomic c .xchg name index [i] m = .ok old m' := by
  obtain ⟨current, -, rfl, same⟩ := performAtomic_slot holds declared element ended
  refine ⟨?_, _, same rfl⟩
  change Value.ofInteger w.scalar (w.wrap (w.wrap i)) = _
  rw [w.wrap_wrap]

/-- A value of the slot's type is not changed by the slot's width. -/
theorem ofInteger_wrap (type : u.type = w.scalar) (integer : u.integer? = some i) :
    Value.ofInteger w.scalar (w.wrap i) = u := by
  cases w with
  | int =>
    obtain ⟨k, rfl⟩ := Value.int_of_type type
    cases integer
    simp [Value.ofInteger, SlotWidth.wrap, SlotWidth.scalar]
  | long =>
    cases u with
    | long k =>
      cases integer
      rfl
    | _ => cases type

end

/-! ## Operands -/

section

variable {c : Context} {n : Nat} {m m' : Machine} {w : SlotWidth} {name : String} {v : Value}
  {vs : List Value} {integers : List Int64}

theorem operand_ok (h : Eval.operand op v m = .ok i m') : v.integer? = some i ∧ m' = m := by
  unfold Eval.operand at h
  cases integer : v.integer? with
  | none =>
    rw [integer] at h
    cases h
  | some k =>
    rw [integer] at h
    cases h
    exact ⟨rfl, rfl⟩

theorem mapM_operand (op) (same : vs.map Value.integer? = integers.map some) (m) :
    vs.mapM (Eval.operand op) m = .ok integers m := by
  induction vs generalizing integers with
  | nil =>
    obtain rfl := map_eq_nil_iff.mp same.symm
    rfl
  | cons v rest ih =>
    cases integers with
    | nil => cases same
    | cons i others =>
      obtain ⟨first, tail⟩ := List.cons.inj same
      have accepted : Eval.operand op v = pure i := by
        unfold Eval.operand
        rw [first]
      rw [mapM_cons, accepted, pure_bind]
      change EStateM.bind (rest.mapM (Eval.operand op)) _ m = _
      unfold EStateM.bind
      rw [ih tail]
      rfl

theorem chain_of_evalOperands (enough : n ≤ steps)
    (ended : Eval.evalOperands c n op es m = .ok integers m') :
    ∃ vs, Chain c steps es m vs m' ∧ vs.map Value.integer? = integers.map some := by
  induction es generalizing n m integers with
  | nil =>
    cases n with
    | zero => cases ended
    | succ n =>
      cases ended
      exact ⟨[], .nil, rfl⟩
  | cons e rest ih =>
    cases n with
    | zero => cases ended
    | succ n =>
      obtain ⟨v, m₁, first, later⟩ := bind_ok ended
      obtain ⟨i, m₂, accepted, later⟩ := bind_ok later
      obtain ⟨is, m₃, others, last⟩ := bind_ok later
      cases last
      obtain ⟨integer, rfl⟩ := operand_ok accepted
      obtain ⟨vs, chain, same⟩ := ih (Nat.le_of_succ_le enough) others
      exact ⟨v :: vs, .cons (Nat.le_of_succ_le enough) first chain, congrArg₂ List.cons integer same⟩

/-- The index of a slot is evaluated before the operands. -/
theorem chain_of_slot (enough : n ≤ steps) (indexed : Eval.evalOption c n index m = .ok i m₁)
    (chain : Chain c steps es m₁ vs m') :
    Chain c steps (index.toList ++ es) m (i.toList ++ vs) m' ∧ i.isSome = index.isSome := by
  cases n with
  | zero => cases indexed
  | succ n =>
    cases index with
    | none =>
      cases indexed
      exact ⟨chain, rfl⟩
    | some e =>
      obtain ⟨u, m₂, evaluated, found⟩ := bind_ok indexed
      cases found
      exact ⟨.cons (Nat.le_of_succ_le enough) evaluated chain, rfl⟩

/-- The slot as it is passed to an atomic function. -/
def pointer (name : String) : Option Expr → Expr
  | none => .member name
  | some index => .addressOf name index

theorem atomicFunction_takes (width : (c.descriptor.field? name).bind Field.slotWidth? = some w)
    (same : vs.map Value.integer? = integers.map some)
    (done : Eval.performAtomic c (performed op) name i integers m = .ok v m') :
    Takes (At m T) (atomicFunction c op w name i vs) (· = v) (At m' T) bad := by
  unfold atomicFunction
  rw [if_pos width]
  exact (onMachine_takes (mapM_operand op same m)).eq_andThen (onMachine_takes done)

theorem atomic_takes (named : i.isSome = x.isSome)
    (operands : Operands (execs c steps types (x.toList ++ args)) (i.toList ++ vs) m T m₁ T' reach
      bad)
    (width : (c.descriptor.field? name).bind Field.slotWidth? = some w)
    (same : vs.map Value.integer? = integers.map some)
    (done : Eval.performAtomic c (performed op) name i integers m₁ = .ok v m') :
    Takes (At m T) (exec c steps types (.call (.atomic op w) (pointer name x :: args)))
      (Busy reach v) (At m' T') bad := by
  cases x <;> cases i <;> cases named
  all_goals
    rw [pointer, exec]
    refine operands.unsequenced.andThen ?_
    rintro ⟨_, acc⟩ ⟨rfl, within, -⟩
    exact (atomicFunction_takes width same done).eq_andThen
      (.ret ⟨rfl, within, forall_mem_nil _⟩)

end

/-! ## Translations -/

section

variable {c : Context}

/-- The index of a slot is laid out as an operand before the others. -/
theorem slotOperands_eq (name)
    (laid : Laid c s (hazard (index.toList ++ es)) (index.toList ++ es) temps ems temps') :
    ∃ x values, ems.map Emitted.value = x.toList ++ values ∧ values.length = es.length ∧
      x.isSome = index.isSome ∧
      slotOperands c.descriptor s es (operands c.descriptor s es) ⟨name, index⟩ temps =
        .ok ((ems.flatMap Emitted.pre, pointer name x, values), temps') := by
  cases index with
  | none =>
    refine ⟨none, ems.map Emitted.value, rfl, (length_map _).trans laid.length_eq, rfl, ?_⟩
    rw [slotOperands, slotIndex]
    exact emit_bind laid.inOrder
  | some index =>
    change Laid c s (hazard (index :: es)) (index :: es) temps ems temps' at laid
    cases laid with
    | @last _ t _ _ em rendered =>
      refine ⟨some em.value, [], rfl, rfl, rfl, ?_⟩
      have unkept : (hazard [index] && !([] : List GridKernel.Expr).isEmpty && !index.isLiteral) =
          false := by simp
      have none : inOrder c.descriptor s (hazard [index]) (operands c.descriptor s []) temps' =
          .ok (([], []), temps') := rfl
      rw [slotOperands, slotIndex, unkept, emit_bind (rendered.keep false)]
      exact emit_bind none
    | @cons _ next t rest _ temps₁ _ em ems rendered others =>
      let first := (hoisted (hazard (index :: next :: rest) && !index.isLiteral) t em temps₁).1
      refine ⟨some first.value, ems.map Emitted.value, rfl, (length_map _).trans others.length_eq,
        rfl, ?_⟩
      have kept : (hazard (index :: next :: rest) && !(next :: rest).isEmpty && !index.isLiteral) =
          (hazard (index :: next :: rest) && !index.isLiteral) := by simp
      rw [slotOperands, slotIndex, kept, emit_bind (rendered.keep _)]
      exact emit_bind others.inOrder

theorem atomicCall_eq (stores : op ≠ .set) (reads : op ≠ .get) (w slot args pre temps) :
    atomicCall op w slot args pre temps =
      .ok (⟨pre, .call (.atomic op w) (slot :: args), true⟩, temps) := by
  cases op with
  | set => exact absurd rfl stores
  | get => exact absurd rfl reads
  | _ => rfl

variable {n : Nat} {callers : Eval.Frame} {m m' : Machine} {v : Value} {name : String}
  {f : Field} {w : SlotWidth}

theorem types_of_checkOperands (checked : Typing.checkOperands c.descriptor s op w es = .ok ()) :
    ∀ e ∈ es, typeOf c.descriptor s e = .ok (some w.scalar) := by
  induction es with
  | nil => exact fun _ member => by cases member
  | cons e rest ih =>
    obtain ⟨first, others⟩ := checkOperands_cons checked
    exact forall_mem_cons.mpr ⟨first, ih others⟩

/-- The index has type `int`, and the operands that of the slot. -/
theorem slot_types (type : typeOf c.descriptor s (.atomic op slot es) = .ok (some t)) :
    (∀ e ∈ slot.index.toList, typeOf c.descriptor s e = .ok (some .int)) ∧
      ∃ f w, t = w.scalar ∧ c.descriptor.field? slot.field = some f ∧ f.element = .atomic w ∧
        es.length = op.arity ∧ ∀ e ∈ es, typeOf c.descriptor s e = .ok (some w.scalar) := by
  obtain ⟨f, w, ⟨⟩, declared, element, named, arity, checked⟩ := typeOf_atomic type
  refine ⟨?_, f, w, rfl, declared, element, arity, types_of_checkOperands checked⟩
  have position := checkSlot_index named
  intro e member
  rw [mem_toList] at member
  rw [member] at position
  exact position.2

theorem Chain.typed (checked : check c.descriptor = .ok ())
    (types : ∀ e ∈ es, typeOf c.descriptor s e = .ok (some t)) (holds : Holds c s.names callers m)
    (chain : Chain c steps es m vs m') : ∀ v ∈ vs, v.type = t := by
  induction chain with
  | nil => exact forall_mem_nil _
  | cons _ first _ ih =>
    obtain ⟨type, others⟩ := forall_mem_cons.mp types
    obtain ⟨typed, holds₁⟩ := ((Eval.sound checked _).value type holds).of_ok first
    exact forall_mem_cons.mpr ⟨typed, ih others holds₁⟩

/-- What evaluating an atomic operation says, in the terms of its translation. -/
theorem atomic_of_eval (checked : check c.descriptor = .ok ()) (enough : n ≤ steps)
    (type : typeOf c.descriptor s (.atomic op slot es) = .ok (some t))
    (holds : Holds c s.names callers m)
    (ended : Eval.eval c (n + 1) (.atomic op slot es) m = .ok v m') :
    ∃ i vs integers m₁, Chain c steps (slot.index.toList ++ es) m (i.toList ++ vs) m₁ ∧
      vs.length = es.length ∧ (∀ u ∈ vs, u.type = t) ∧
      vs.map Value.integer? = integers.map some ∧ i.isSome = slot.index.isSome ∧
      Holds c s.names callers m₁ ∧
      Eval.performAtomic c op slot.field i integers m₁ = .ok v m' := by
  obtain ⟨f, w, ⟨⟩, declared, element, named, arity, operands⟩ := typeOf_atomic type
  obtain ⟨position, -⟩ := slot_types type
  obtain ⟨i, m₁, indexed, rest⟩ := bind_ok ended
  obtain ⟨integers, m₂, given, performed⟩ := bind_ok rest
  obtain ⟨-, holds₁⟩ := ((Eval.sound checked n).optional
    (fun e found => position e (mem_toList.mpr found)) holds).of_ok indexed
  have holds₂ := (((Eval.sound checked n).operands operands holds₁).of_ok given).2
  obtain ⟨vs, chain, same⟩ := chain_of_evalOperands enough given
  obtain ⟨whole, index⟩ := chain_of_slot enough indexed chain
  exact ⟨i, vs, integers, m₂, whole, chain.length_eq,
    chain.typed checked (types_of_checkOperands operands) holds₁, same, index, holds₂, performed⟩

theorem slot_laid (h : ∀ e ∈ index.toList ++ es, Faithful c s e)
    (type : typeOf c.descriptor s (.atomic op ⟨name, index⟩ es) = .ok (some t)) (temps) :
    ∃ ems temps', Laid c s (hazard (index.toList ++ es)) (index.toList ++ es) temps ems temps' := by
  obtain ⟨position, f, w, -, -, -, -, operands⟩ := slot_types type
  refine Laid.exists_of_faithful h (fun e member => ?_) _ temps
  exact (mem_append.mp member).elim (fun found => ⟨_, position e found⟩)
    fun found => ⟨_, operands e found⟩

theorem slot_nodes (op name index es) : ∀ node ∈ GridKernel.Expr.listNodes (index.toList ++ es),
      node ∈ (Expr.atomic op ⟨name, index⟩ es).nodes := by
  cases index with
  | none | some e => exact fun _ => mem_cons_of_mem _

/-- With its operands laid out, an operation is translated to a call. -/
theorem atomic_emitted (op) (declared : c.descriptor.field? name = some f)
    (element : f.element = .atomic w)
    (laid : Laid c s (hazard (index.toList ++ es)) (index.toList ++ es) temps ems temps') :
    ∃ x values, ems.map Emitted.value = x.toList ++ values ∧ values.length = es.length ∧
      x.isSome = index.isSome ∧
      expr c.descriptor s (.atomic op ⟨name, index⟩ es) temps =
        atomicCall op w (pointer name x) values (ems.flatMap Emitted.pre) temps' := by
  obtain ⟨x, values, split, size, named, emits⟩ := slotOperands_eq name laid
  exact ⟨x, values, split, size, named,
    (emit_bind (typed_eq (slotWidth_eq_ok.mpr ⟨declared, element⟩) temps)).trans
      (emit_bind emits)⟩

theorem width_of_field (declared : c.descriptor.field? name = some f)
    (element : f.element = .atomic w) :
    (c.descriptor.field? name).bind Field.slotWidth? = some w := by
  rw [declared]
  change f.slotWidth? = some w
  unfold Field.slotWidth?
  rw [element]

/-- Every operation but a store and a read. -/
theorem faithful_operation (checked : check c.descriptor = .ok ())
    (h : ∀ e ∈ index.toList ++ es, Faithful c s e) (stores : op ≠ .set) (reads : op ≠ .get) (name) :
    Faithful c s (.atomic op ⟨name, index⟩ es) := by
  intro t type temps
  obtain ⟨-, f, w, -, declared, element, -⟩ := slot_types type
  obtain ⟨ems, temps', laid⟩ := slot_laid h type temps
  obtain ⟨x, values, split, -, named, emits⟩ := atomic_emitted op declared element laid
  refine ⟨_, temps', .of_steps type (emits.trans (atomicCall_eq stores reads w _ _ _ _))
    laid.grows nofun ?_⟩
  intro types n steps callers m v m' inside enough holds ended T
  obtain ⟨i, vs, integers, m₁, chain, -, -, same, found, -, done⟩ :=
    atomic_of_eval checked enough type holds ended
  have itself : performed op = op := by
    cases op with
    | set => exact absurd rfl stores
    | get => exact absurd rfl reads
    | _ => rfl
  refine (laid.prepared checked inside holds chain T).extend (slot_nodes op name index es)
    fun operands => ?_
  rw [split] at operands
  refine atomic_takes (found.trans named.symm) operands (width_of_field declared element) same ?_
  rw [itself]
  exact done

/-- A literal after other operands. -/
theorem Operands.literal_last (h : Operands (execs c steps types args) vs m T m' T' reach bad) (v) :
    Operands (execs c steps types (args ++ [.literal v])) (vs ++ [v]) m T m' T' reach bad := by
  obtain ⟨safe, busy, active, disjoint, sub, still, arranged⟩ := h
  refine ⟨safe, busy, active, disjoint, sub, still, ?_⟩
  clear still
  induction args generalizing active vs with
  | nil =>
    cases arranged
    exact .passive (literal_takes _ v) (literal_takes _ v) .nil
  | cons e rest ih =>
    cases arranged with
    | passive before after others => exact .passive before after (ih _ others)
    | active acts others => exact .active acts (ih _ others)

/-- A read: an `or` with zero. -/
theorem faithful_read (checked : check c.descriptor = .ok ())
    (h : ∀ e ∈ index.toList ++ es, Faithful c s e) (name) :
    Faithful c s (.atomic .get ⟨name, index⟩ es) := by
  intro t type temps
  obtain ⟨-, f, w, -, declared, element, arity, -⟩ := slot_types type
  obtain rfl := eq_nil_of_length_eq_zero arity
  obtain ⟨ems, temps', laid⟩ := slot_laid h type temps
  obtain ⟨x, values, split, size, named, emits⟩ := atomic_emitted .get declared element laid
  refine ⟨_, temps', .of_steps type emits laid.grows nofun ?_⟩
  intro types n steps callers m v m' inside enough holds ended T
  obtain ⟨i, vs, integers, m₁, chain, count, -, same, found, holds₁, done⟩ :=
    atomic_of_eval checked enough type holds ended
  obtain rfl := eq_nil_of_length_eq_zero count
  obtain rfl := eq_nil_of_length_eq_zero size
  refine (laid.prepared checked inside holds chain T).extend (slot_nodes .get name index [])
    fun operands => ?_
  rw [split, append_nil, append_nil] at operands
  have zero : [Value.zero w.scalar].map Value.integer? = [(0 : Int64)].map some := by
    cases w <;> rfl
  exact atomic_takes (found.trans named.symm) (operands.literal_last (Value.zero w.scalar))
    (width_of_field declared element) zero (read_by_or holds₁ declared element done)

/-! ## Stores -/

/-- What a store is translated to. -/
def storeCall (name : String) (w : SlotWidth) (x : Option Expr) (y : Expr) (pre : List Expr)
    (n : Nat) : Emitted :=
  ⟨pre ++ [.assign (.temp n) y, .call (.atomic .set w) [pointer name x, .temp n]], .temp n, true⟩

section

variable {em : Emitted} {k : Int64} (keeps : m.memory.Keeps m'.memory)
  (integer : v.integer? = some k)
  (width : (c.descriptor.field? name).bind Field.slotWidth? = some w)
include keeps integer width

/-- The exchange, once the value is kept. -/
theorem runs_exchange
    (before : Leads c steps types front nodes lo (hi + 1) m T mid T₁) (held : T₁ hi = some v)
    (outside : Outside lo hi T₁ T₂)
    (operands : Operands (execs c steps types (x.toList ++ [.temp hi])) (i.toList ++ [v]) mid T₁ m₂
      T₂ (Reaches nodes lo (hi + 1)) (SelfIndexed nodes))
    (named : i.isSome = x.isSome) (done : Eval.performAtomic c .xchg name i [k] m₂ = .ok old m') :
    Runs c steps types
      ⟨front ++ [.call (.atomic .set w) [pointer name x, .temp hi]], .temp hi, true⟩ nodes lo
      (hi + 1) m T v m' := by
  have same : [v].map Value.integer? = [k].map some := congrArg (fun o => [o]) integer
  refine ⟨m', T₂, keeps, before.append (.single (atomic_takes named operands width same done)
    (outside.wider (Nat.le_refl lo) (Nat.le_succ hi))), fun T' agree => .still (temp_busy ?_)⟩
  exact (agree hi (Nat.lt_succ_self hi)).trans ((outside hi (.inr (Nat.le_refl hi))).trans held)

/-- A store whose index does nothing once the value is kept. -/
theorem runs_store
    (before : Leads c steps types front nodes lo b m T m₁ T₁)
    (runs : Runs c steps types em nodes b hi m₁ T₁ v m₂) (low : lo ≤ b) (high : b ≤ hi)
    (type : types[hi]? = some v.type)
    (quiet : ∀ {T₂}, Agree b T₁ T₂ → T₂ hi = some v →
      Operands (execs c steps types (x.toList ++ [.temp hi])) (i.toList ++ [v]) m₂ T₂ m₂ T₂
        (Reaches nodes lo (hi + 1)) (SelfIndexed nodes))
    (named : i.isSome = x.isSome) (done : Eval.performAtomic c .xchg name i [k] m₂ = .ok old m') :
    Runs c steps types (storeCall name w x em.value (front ++ em.pre) hi) nodes lo (hi + 1) m T v
      m' := by
  obtain ⟨T₂, held, kept⟩ := runs.kept rfl high type
  have ready := (before.mono (fun _ found => found) (Nat.le_refl lo) (by omega)).append
    (kept.mono (fun _ found => found) low (Nat.le_refl _))
  have stored := runs_exchange keeps integer width ready held (.refl T₂)
    (quiet kept.2.agree held) named done
  simpa only [storeCall, append_assoc, cons_append, nil_append] using stored

/-- A store of a literal: the value is kept between what runs before the index and the index. -/
theorem runs_store_literal (runs : Runs c steps types em nodes lo hi m T u m₂) (ordered : lo ≤ hi)
    (type : types[hi]? = some v.type)
    (done : Eval.performAtomic c .xchg name (some u) [k] m₂ = .ok old m') :
    Runs c steps types (storeCall name w (some em.value) (.literal v) em.pre hi) nodes lo (hi + 1) m
      T v m' := by
  obtain ⟨mid, T₁, -, before, yields⟩ := runs
  have held := T₁.set_self hi v
  obtain ⟨T₂, outside, taken⟩ := yields (T₁.set hi v) (T₁.set_outside hi v).agree
  have held₂ : T₂ hi = some v := (outside hi (.inr (Nat.le_refl hi))).trans held
  have kept : Leads c steps types [.assign (.temp hi) (.literal v)] nodes hi (hi + 1) mid T₁ mid
      (T₁.set hi v) :=
    .keep ((literal_quiet _ v).mono fun _ h => h.toBusy) (.refl T₁) (Nat.le_refl hi) type
  have ready := (before.mono (fun _ found => found) (Nat.le_refl lo) (Nat.le_succ hi)).append
    (kept.mono (fun _ found => found) ordered)
  have operands : Operands [exec c steps types em.value, exec c steps types (.temp hi)] [u, v] mid
      (T₁.set hi v) m₂ T₂ (Reaches nodes lo (hi + 1)) (SelfIndexed nodes) := by
    refine ⟨(· = .temp hi), Reaches nodes lo hi, true, ?_, ?_, nofun,
      .active taken (.passive (temp_takes held rfl) (temp_takes held₂ rfl) .nil)⟩
    · rintro _ rfl
      exact Reaches.not_temp (.inr (Nat.le_refl hi))
    · exact fun st h => h.mono (fun _ found => found) (Nat.le_refl lo) (Nat.le_succ hi)
  have stored := runs_exchange (x := some em.value) (i := some u) keeps integer width ready held
    outside operands rfl done
  simpa only [storeCall, append_assoc, cons_append, nil_append] using stored

end

variable (checked : check c.descriptor = .ok ())
include checked

/-- A store, if it runs whenever its operands have been evaluated and its slot exchanged. -/
theorem rendered_store
    (type : typeOf c.descriptor s (.atomic .set ⟨name, index⟩ [value]) = .ok (some w.scalar))
    (declared : c.descriptor.field? name = some f) (element : f.element = .atomic w)
    (laid : Laid c s (hazard (index.toList ++ [value])) (index.toList ++ [value]) temps ems temps')
    (runs : ∀ {x y types steps callers m v m₁ m' i k old},
      ems.map Emitted.value = x.toList ++ [y] → x.isSome = index.isSome →
      temps' ++ [w.scalar] <+: types → Holds c s.names callers m →
      Chain c steps (index.toList ++ [value]) m (i.toList ++ [v]) m₁ → v.type = w.scalar →
      v.integer? = some k → m.memory.Keeps m'.memory → i.isSome = index.isSome →
      Eval.performAtomic c .xchg name i [k] m₁ = .ok old m' →
      ∀ T, Runs c steps types (storeCall name w x y (ems.flatMap Emitted.pre) temps'.length)
        (Expr.atomic .set ⟨name, index⟩ [value]).nodes temps.length (temps'.length + 1) m
        T v m') :
    ∃ em temps', Rendered c s (.atomic .set ⟨name, index⟩ [value]) w.scalar temps em temps' := by
  obtain ⟨x, values, split, size, given, emits⟩ := atomic_emitted .set declared element laid
  obtain ⟨y, rfl⟩ := length_eq_one_iff.mp size
  refine ⟨_, _, .of_steps type emits (laid.grows.trans (prefix_append _ _)) nofun ?_⟩
  intro types n steps callers m v m' inside enough holds ended T
  rw [show (temps' ++ [w.scalar]).length = temps'.length + 1 from length_append]
  have keeps := Eval.eval_keeps ended
  obtain ⟨i, vs, integers, m₁, chain, count, typed, same, found, holds₁, done⟩ :=
    atomic_of_eval checked enough type holds ended
  obtain ⟨u, rfl⟩ := length_eq_one_iff.mp count
  obtain ⟨k, rfl⟩ : ∃ k, integers = [k] := by
    have : integers.length = 1 := by simpa using (congrArg List.length same).symm
    exact length_eq_one_iff.mp this
  have own : u.type = w.scalar := typed u mem_cons_self
  have integer : u.integer? = some k := (List.cons.inj same).1
  obtain ⟨rfl, old, exchanged⟩ := store_by_exchange holds₁ declared element done
  rw [ofInteger_wrap own integer]
  exact runs split given inside holds chain own integer keeps found exchanged T

theorem faithful_store_single (h : Faithful c s value) (name) :
    Faithful c s (.atomic .set ⟨name, none⟩ [value]) := by
  intro t type temps
  obtain ⟨-, f, w, rfl, declared, element, -, operands⟩ := slot_types type
  obtain ⟨em, temps', rendered⟩ := h (operands value mem_cons_self) temps
  refine rendered_store checked type declared element (.last rendered) ?_
  intro x y types steps callers m v m₁ m' i k old split given inside holds chain own integer keeps
    found exchanged T
  obtain rfl := isNone_iff_eq_none.mp (isSome_eq_false_iff.mp given)
  obtain rfl := isNone_iff_eq_none.mp (isSome_eq_false_iff.mp found)
  obtain ⟨rfl, -⟩ := List.cons.inj split
  rw [flatMap_singleton]
  cases chain with
  | cons enough evaluated rest =>
    cases rest
    have runs := (rendered.runs ((prefix_append _ _).trans inside) enough holds evaluated T).mono
      (fun _ member => slot_nodes .set name none [value] _ (mem_append_left [] member))
    refine runs_store (i := none) keeps integer (width_of_field declared element) (.nil m T) runs
      (Nat.le_refl _) rendered.grows.length_le (own ▸ type_of_front inside) (fun _ held => ?_) rfl
      exchanged
    exact .single (temp_busy held)

section

variable {place : GridKernel.Expr} {em : Emitted} {k : Int64}

/-- A store to a slot of an array: what the index and the value do is done in their order, and the
slot is exchanged after both. -/
theorem runs_store_at (rendered : Rendered c s place .int temps em temps₁)
    (rendered₁ : Rendered c s value w.scalar
      (hoisted (hazard [place, value] && !place.isLiteral) .int em temps₁).2 em₁ temps₂)
    (inside : temps₂ ++ [w.scalar] <+: types) (holds : Holds c s.names callers m)
    (enough : n ≤ steps) (first : Eval.eval c n place m = .ok u m₁) (enough₁ : n₁ ≤ steps)
    (second : Eval.eval c n₁ value m₁ = .ok v m₂) (own : v.type = w.scalar)
    (integer : v.integer? = some k) (keeps : m.memory.Keeps m'.memory)
    (width : (c.descriptor.field? name).bind Field.slotWidth? = some w)
    (done : Eval.performAtomic c .xchg name (some u) [k] m₂ = .ok old m') :
    Runs c steps types
      (storeCall name w
        (some (hoisted (hazard [place, value] && !place.isLiteral) .int em temps₁).1.value) em₁.value
        ((hoisted (hazard [place, value] && !place.isLiteral) .int em temps₁).1.pre ++ em₁.pre)
        temps₂.length)
      (Expr.atomic .set ⟨name, some place⟩ [value]).nodes temps.length
      (temps₂.length + 1) m T v m' := by
  have left : ∀ node ∈ place.nodes,
      node ∈ (Expr.atomic .set ⟨name, some place⟩ [value]).nodes := fun _ member =>
    mem_cons_of_mem _ (mem_append_left _ member)
  have right : ∀ node ∈ value.nodes,
      node ∈ (Expr.atomic .set ⟨name, some place⟩ [value]).nodes := fun _ member =>
    mem_cons_of_mem _ (mem_append_right _ (mem_append_left _ member))
  have slot : types[temps₂.length]? = some v.type := own ▸ type_of_front inside
  have inside₂ : temps₂ <+: types := (prefix_append _ _).trans inside
  obtain ⟨-, holds₁⟩ := ((Eval.sound checked n).value rendered.type holds).of_ok first
  have low := rendered.grows.length_le
  by_cases literal : place.isLiteral = true
  · rw [hoisted_literal _ literal] at rendered₁ ⊢
    obtain ⟨i, rfl, pre, index, rfl⟩ := rendered.literal literal
    obtain ⟨rfl, rfl⟩ := eval_literal first
    have runs := (rendered₁.runs inside₂ enough₁ holds second T).mono right
    rw [pre, index]
    refine runs_store (i := some u) keeps integer width (.nil m₁ T) runs (Nat.le_refl _)
      rendered₁.grows.length_le slot (fun _ held => ?_) rfl done
    exact .passive (literal_quiet _ u) (temp_quiet held)
  by_cases literal' : value.isLiteral = true
  · obtain ⟨i, rfl, pre, index, same⟩ := rendered₁.literal literal'
    obtain ⟨rfl, rfl⟩ := eval_literal second
    rw [hazard_literal] at same ⊢
    obtain rfl : temps₂ = temps₁ := same
    have runs := (rendered.runs inside₂ enough holds first T).mono left
    rw [pre, index, append_nil]
    exact runs_store_literal keeps integer width runs low slot done
  rw [hazard_pair literal literal'] at rendered₁ ⊢
  cases effects : (place.hasEffects || value.hasEffects) with
  | true =>
    have keep : (true && !place.isLiteral) = true := by simpa using literal
    rw [keep]
    rw [effects, keep] at rendered₁
    have allocated : (temps₁ ++ [ScalarType.int]).length = temps₁.length + 1 := length_append
    have grown : (temps₁ ++ [ScalarType.int]).length ≤ temps₂.length :=
      rendered₁.grows.length_le
    have inside₁ : temps₁ ++ [.int] <+: types := rendered₁.grows.trans inside₂
    obtain ⟨typed, -⟩ := ((Eval.sound checked n).value rendered.type holds).of_ok first
    have runs := (rendered.runs ((prefix_append _ _).trans inside₁) enough holds first T).mono
      left
    obtain ⟨T₁, held, stored⟩ := runs.kept (exec_operand em) low (typed ▸ type_of_front inside₁)
    have later := (rendered₁.runs inside₂ enough₁ holds₁ second T₁).mono right
    change Runs c steps types em₁ _ (temps₁ ++ [ScalarType.int]).length _ _ _ _ _ at later
    rw [allocated] at later grown
    refine runs_store (i := some u) keeps integer width stored later (by omega) grown slot
      (fun agree held' => ?_) rfl done
    exact .passive (temp_quiet ((agree _ (Nat.lt_succ_self _)).trans held)) (temp_quiet held')
  | false =>
    obtain ⟨plain, plain'⟩ := Bool.or_eq_false_iff.mp effects
    rw [effects] at rendered₁
    obtain ⟨pre, rfl⟩ := rendered.plain plain
    obtain rfl := Eval.plain_state plain first
    obtain rfl := Eval.plain_state plain' second
    change Rendered c s value w.scalar temps₁ em₁ temps₂ at rendered₁
    have runs := (rendered₁.runs inside₂ enough₁ holds second T).mono right
    change Runs c steps types (storeCall name w (some em.value) em₁.value (em.pre ++ em₁.pre) _) _ _
      _ _ _ _ _
    rw [pre]
    refine runs_store (i := some u) keeps integer width (.nil m₂ T) runs (Nat.le_refl _)
      rendered₁.grows.length_le slot (fun _ held => ?_) rfl done
    have index := rendered.passive plain (rendered₁.grows.trans inside₂) enough holds first
    exact .passive ((index _).weaken (·.mono left)) (temp_quiet held)

end

theorem faithful_store_at {place : GridKernel.Expr} (h : Faithful c s place)
    (h₁ : Faithful c s value) (name) : Faithful c s (.atomic .set ⟨name, some place⟩ [value]) := by
  intro t type temps
  obtain ⟨position, f, w, rfl, declared, element, -, operands⟩ := slot_types type
  obtain ⟨em, temps₁, rendered⟩ := h (position place mem_cons_self) temps
  let kept := hoisted (hazard [place, value] && !place.isLiteral) .int em temps₁
  obtain ⟨em₁, temps₂, rendered₁⟩ := h₁ (operands value mem_cons_self) kept.2
  have laid : Laid c s (hazard [place, value]) [place, value] temps [kept.1, em₁] temps₂ :=
    .cons rendered (.last rendered₁)
  refine rendered_store checked type declared element laid ?_
  intro x y types steps callers m v m₁ m' i k old split given inside holds chain own integer keeps
    found exchanged T
  obtain ⟨_, rfl⟩ := isSome_iff_exists.mp given
  obtain ⟨u, rfl⟩ := isSome_iff_exists.mp found
  obtain ⟨rfl, others⟩ := List.cons.inj split
  obtain ⟨rfl, -⟩ := List.cons.inj others
  rw [flatMap_cons, flatMap_singleton]
  cases chain with
  | cons enough first rest =>
    cases rest with
    | cons enough₁ second rest =>
      cases rest
      exact runs_store_at checked rendered rendered₁ inside holds enough first enough₁ second own
        integer keeps (width_of_field declared element) exchanged

theorem faithful_store (h : ∀ e ∈ index.toList ++ es, Faithful c s e) (name) :
    Faithful c s (.atomic .set ⟨name, index⟩ es) := by
  intro t type
  obtain ⟨-, f, w, -, -, -, arity, -⟩ := slot_types type
  obtain ⟨value, rfl⟩ := length_eq_one_iff.mp arity
  cases index with
  | none => exact faithful_store_single checked (h value mem_cons_self) name type
  | some place =>
    exact faithful_store_at checked (h place mem_cons_self)
      (h value (mem_cons_of_mem _ mem_cons_self)) name type

theorem faithful_atomic (h : ∀ e ∈ index.toList ++ es, Faithful c s e) (op name) :
    Faithful c s (.atomic op ⟨name, index⟩ es) := by
  by_cases stores : op = .set
  · subst stores
    exact faithful_store checked h name
  by_cases reads : op = .get
  · subst reads
    exact faithful_read checked h name
  exact faithful_operation checked h stores reads name

end

end GridKernel.Target
