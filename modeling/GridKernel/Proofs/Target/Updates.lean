import GridKernel.Proofs.Target.Stores

/-!
# Compound assignments and increments

The place is read before the value is evaluated. If the value has effects, what was read is kept in
a temporary while they happen; otherwise nothing can come between, and C's own operators do.
-/

namespace GridKernel.Target

open List Typing Eval
open Eval (Context Machine Holds Location)
open Typing (typeOf valueType check placeType)

variable {c : Context} {s : Scope} {callers : Eval.Frame} {m m₁ m' : Machine} {v w : Value}
  {l : Location} {p : Place GridKernel.Expr} {temps temps₁ : Temps} {em : Emitted}

/-! ## The place -/

/-- A place whose index, if it has one, is translated faithfully. -/
def FaithfulPlace (c : Context) (s : Scope) : Place GridKernel.Expr → Prop
  | .element _ index => Faithful c s index
  | _ => True

/-- Whether the target of an assignment is a name, or an element whose index is a literal or is
kept. -/
def keepsIndex (effects : Bool) : Place GridKernel.Expr → Bool
  | .element _ index => index.isLiteral || index.hasEffects || effects
  | _ => true

/-- A place that does not depend on what happens after it. -/
theorem place_settles (checked : check c.descriptor = .ok ()) (h : FaithfulPlace c s p)
    (type : placeType c.descriptor s p = .ok t) (keeps : keepsIndex effects p = true) (temps) :
    ∃ pre target temps₁, place c.descriptor s effects p temps = .ok ((pre, target), temps₁) ∧
      temps <+: temps₁ ∧ Settles c s p temps pre target temps₁ := by
  cases p with
  | var name => exact ⟨[], .var name, temps, rfl, prefix_rfl, settles_var name temps⟩
  | field name => exact ⟨[], .member name, temps, rfl, prefix_rfl, settles_field name temps⟩
  | element array index =>
    obtain ⟨position, elements⟩ := placeType_element type
    obtain ⟨em, temps₁, rendered⟩ := h position temps
    cases literal : index.isLiteral with
    | true =>
      obtain ⟨v, rfl, pre, value, rfl⟩ := rendered.literal literal
      refine ⟨[], .element array (.literal v), temps₁, ?_, prefix_rfl,
        settles_literal v elements temps₁⟩
      rw [place, emit_bind rendered.translation, if_neg (by simp [literal,
        show (GridKernel.Expr.literal v).hasEffects = false from rfl]), pre, value]
      rfl
    | false =>
      refine ⟨em.pre ++ [.assign (.temp temps₁.length) em.operand],
        .element array (.temp temps₁.length), temps₁ ++ [.int], ?_,
        rendered.grows.trans (prefix_append _ _), settles_kept checked rendered elements⟩
      have hoists : (index.hasEffects || (effects && !index.isLiteral)) = true := by
        simpa [keepsIndex, literal] using keeps
      rw [place, emit_bind rendered.translation, if_pos hoists]
      rfl

/-- A place of which nothing is needed but the state in which it is found. -/
theorem place_reaches (checked : check c.descriptor = .ok ()) (h : FaithfulPlace c s p)
    (type : placeType c.descriptor s p = .ok t) (temps) :
    ∃ pre target temps₁, place c.descriptor s false p temps = .ok ((pre, target), temps₁) ∧
      temps <+: temps₁ ∧ Arrives c s p temps pre target temps₁ := by
  cases keeps : keepsIndex false p with
  | true =>
    obtain ⟨pre, target, temps₁, translation, grows, settles⟩ :=
      place_settles checked h type keeps temps
    exact ⟨pre, target, temps₁, translation, grows, settles.arrives⟩
  | false =>
    cases p with
    | var name | field name => cases keeps
    | element array index =>
      obtain ⟨plain, -⟩ := Bool.or_eq_false_iff.mp keeps
      obtain ⟨-, effects⟩ := Bool.or_eq_false_iff.mp plain
      obtain ⟨position, -⟩ := placeType_element type
      obtain ⟨em, temps₁, rendered⟩ := h position temps
      obtain ⟨pre, rfl⟩ := rendered.plain effects
      refine ⟨[], .element array em.value, temps₁, ?_, prefix_rfl,
        arrives_plain rendered effects array⟩
      rw [place, emit_bind rendered.translation, effects, pre]
      rfl

/-! ## Compound assignments -/

theorem compound_types (type : typeOf c.descriptor s (.assign p (some op) value) = .ok (some t)) :
    ∃ u, placeType c.descriptor s p = .ok t ∧ typeOf c.descriptor s value = .ok (some u) ∧
      op.isShortCircuit = false ∧ Typing.binaryType op t u = .ok t := by
  obtain ⟨_, u, ⟨⟩, place, source, assigned⟩ := typeOf_assign type
  obtain ⟨arithmetic, operator⟩ := assignType_compound assigned
  exact ⟨u, place, source, (Bool.or_eq_false_iff.mp arithmetic).2, operator⟩

/-- What a compound assignment does at its location: what it reads before the value is evaluated,
what it computes and what it stores. -/
structure Combines (c : Context) (p : Place GridKernel.Expr) (op : BinaryOp) (l : Location)
    (m : Machine) (old v : Value) (m₁ : Machine) (u w : Value) (m' : Machine) : Prop where
  place : (storageOf l).isOf p = true
  read : Eval.readLocation c l m = .ok old m
  strict : op.isShortCircuit = false
  operator : Typing.binaryType op old.type v.type = .ok old.type
  applied : Eval.binary op old v = .ok u
  stores : Stores c l m₁ u w m'

/-- What evaluating a compound assignment says, in the terms of its translation. -/
theorem compound_parts (checked : check c.descriptor = .ok ())
    (place : placeType c.descriptor s p = .ok t)
    (source : typeOf c.descriptor s value = .ok (some u)) (strict : op.isShortCircuit = false)
    (operator : Typing.binaryType op t u = .ok t) (holds : Holds c s.names callers m)
    (ended : Eval.eval c (n + 1) (.assign p (some op) value) m = .ok w m') :
    ∃ l m₁ old v m₂ r, Eval.resolve c n p m = .ok l m₁ ∧ Holds c s.names callers m₁ ∧
      Eval.eval c n value m₁ = .ok v m₂ ∧ old.type = t ∧ v.type = u ∧
      Combines c p op l m₁ old v m₂ r w m' := by
  obtain ⟨l, m₁, resolved, rest⟩ := bind_ok ended
  obtain ⟨old, m₂, read, rest⟩ := bind_ok rest
  obtain ⟨v, m₃, evaluated, rest⟩ := bind_ok rest
  obtain ⟨r, m₄, lifted, rest⟩ := bind_ok rest
  obtain ⟨⟨⟩, m₅, written, rest⟩ := bind_ok rest
  cases rest
  obtain rfl := (Eval.Reads.reads_location c l).state read
  obtain ⟨applied, rfl⟩ := ok_of_orTrap lifted
  obtain ⟨typed, holds₁⟩ := ((Eval.sound checked n).place place holds).of_ok resolved
  obtain ⟨rfl, -⟩ := (readLocation_safe holds₁ typed).of_ok read
  obtain ⟨rfl, holds₂⟩ := ((Eval.sound checked n).value source holds₁).of_ok evaluated
  exact ⟨l, m₂, old, v, m₄, r, resolved, holds₁, evaluated, rfl, rfl, isOf_of_resolve resolved, read,
    strict, operator, applied, holds₂, typed, rfl, written⟩

/-- A compound assignment whose value has effects. -/
theorem Settled.update
    (settled : Settled c steps types pre target p.nodes temps.length temps₁.length m T l m₁)
    (grows : temps <+: temps₁)
    (rendered : Rendered c s value v.type (temps₁ ++ [old.type]) em temps₂)
    (inside : temps₂ ++ [v.type] <+: types) (enough : n ≤ steps)
    (holds : Holds c s.names callers m₁) (keeps : m.memory.Keeps m₁.memory)
    (evaluated : Eval.eval c n value m₁ = .ok v m₂) (h : Combines c p op l m₁ old v m₂ u w m') :
    Runs c steps types ⟨pre ++ [.assign (.temp temps₁.length) target] ++ em.pre ++
        [.assign (.temp temps₂.length) em.operand],
        .assign target (combine op old.type (.temp temps₁.length) (.temp temps₂.length) []).value,
        false⟩
      (GridKernel.Expr.assign p (some op) value).nodes temps.length (temps₂ ++ [v.type]).length m T w
      m' := by
  have allocated : (temps₁ ++ [old.type]).length = temps₁.length + 1 := length_append
  have allocated' : (temps₂ ++ [v.type]).length = temps₂.length + 1 := length_append
  have low := grows.length_le
  have high := rendered.grows.length_le
  rw [allocated] at high
  obtain ⟨T₁, before, finds⟩ := settled
  -- What the place holds is kept.
  have first : Leads c steps types [.assign (.temp temps₁.length) target] value.nodes temps₁.length
      (temps₁.length + 1) m₁ T₁ m₁ (T₁.set temps₁.length old) :=
    .keep ((finds.loaded ⟨.refl _, .refl _ T₁⟩ h.read).mono fun _ h => h.toBusy) (.refl T₁)
      (Nat.le_refl _)
      (type_of_front ((rendered.grows.trans (prefix_append _ _)).trans inside))
  -- The value is evaluated and kept.
  obtain ⟨T₂, held, second⟩ :=
    (rendered.runs ((prefix_append _ _).trans inside) enough holds evaluated
      (T₁.set temps₁.length old)).kept (exec_operand em) (allocated ▸ high) (type_of_front inside)
  rw [allocated] at second
  have kept : T₂ temps₁.length = some old :=
    (second.2 _ (.inl (Nat.lt_succ_self _))).trans (T₁.set_self _ old)
  have both : Leads c steps types ([.assign (.temp temps₁.length) target] ++
      (em.pre ++ [.assign (.temp temps₂.length) em.operand])) value.nodes temps₁.length
      (temps₂.length + 1) m₁ T₁ m₂ T₂ :=
    (first.mono (fun _ found => found) (Nat.le_refl _) (by omega)).append
      (second.mono (fun _ found => found) (Nat.le_succ _))
  rw [allocated', append_assoc, append_assoc]
  refine ⟨m₂, T₂, keeps.trans (eval_keeps evaluated),
    (before.mono (place_nodes_subset _ _ _) (Nat.le_refl _) (by omega)).append
      (both.mono (value_nodes_subset _ _ _) low), fun T' agree => .still ?_⟩
  have here : Beyond m₁ T₁ temps₁.length m₂ T' :=
    ⟨eval_keeps evaluated, both.2.agree.trans (agree.mono (by omega))⟩
  refine finds.assign_passive here ?_ h.stores (reaches_target h.place)
  exact combine_takes h.strict h.operator h.applied
    (.passive (temp_quiet ((agree _ (by omega)).trans kept))
      (temp_quiet ((agree _ (Nat.lt_succ_self _)).trans held))) []

/-- A compound assignment whose value has no effects. -/
theorem Reached.update
    (reached : Reached c steps types pre target p.nodes temps.length temps₁.length m T l m₁)
    (plain : value.hasEffects = false) (rendered : Rendered c s value v.type temps₁ em temps₁)
    (inside : temps₁ <+: types) (enough : n ≤ steps) (holds : Holds c s.names callers m₁)
    (keeps : m.memory.Keeps m₁.memory) (evaluated : Eval.eval c n value m₁ = .ok v m₁)
    (h : Combines c p op l m₁ old v m₁ u w m') :
    Runs c steps types ⟨pre, if isNativeCompound op old.type then .compound op target em.operand
        else .assign target (combine op old.type target em.operand []).value, false⟩
      (GridKernel.Expr.assign p (some op) value).nodes temps.length temps₁.length m T w m' := by
  have left := place_nodes_subset p (some op) value
  obtain ⟨T₁, safe, Here, before, everywhere, finds⟩ := reached
  have finds := finds.weaken (·.mono left)
  refine ⟨m₁, T₁, keeps, before.mono left,
    fun T' agree => .still ?_⟩
  have here := everywhere T' agree
  have valued := (rendered.passive plain inside enough holds evaluated T').weaken
    (·.mono (value_nodes_subset p (some op) value))
  rw [← exec_operand] at valued
  split
  · exact finds.compound here h.read valued ((apply_eq h.operator).trans h.applied) h.stores
      (reaches_target h.place)
  · exact finds.assign_passive here (combine_takes h.strict h.operator h.applied
      (.passive (finds.loaded here h.read) valued) []) h.stores (reaches_target h.place)

theorem update_effects_eq (effects : value.hasEffects = true)
    (rendered : Rendered c s value u (temps ++ [t]) em temps₁) (pre target) :
    update c.descriptor s op t value (expr c.descriptor s value) pre target temps =
      .ok (⟨pre ++ [.assign (.temp temps.length) target] ++ em.pre ++
          [.assign (.temp temps₁.length) em.operand],
        .assign target (combine op t (.temp temps.length) (.temp temps₁.length) []).value, false⟩,
        temps₁ ++ [u]) := by
  unfold update
  rw [if_pos effects]
  have allocated : fresh t temps = .ok (.temp temps.length, temps ++ [t]) := rfl
  refine (emit_bind allocated).trans ?_
  refine (emit_bind (typed_eq (valueType_eq_ok.mpr rendered.type) _)).trans ?_
  exact emit_bind rendered.translation

theorem update_plain_eq (plain : value.hasEffects = false)
    (rendered : Rendered c s value u temps em temps) (pre target) :
    update c.descriptor s op t value (expr c.descriptor s value) pre target temps =
      .ok (⟨pre, if isNativeCompound op t then .compound op target em.operand
        else .assign target (combine op t target em.operand []).value, false⟩, temps) := by
  unfold update
  rw [if_neg (by rw [plain]; exact Bool.false_ne_true)]
  refine (emit_bind rendered.translation).trans ?_
  rw [(rendered.plain plain).1, append_nil]
  split <;> rfl

theorem faithful_compound (checked : check c.descriptor = .ok ()) (h : FaithfulPlace c s p)
    (h₁ : Faithful c s value) (op) : Faithful c s (.assign p (some op) value) := by
  intro t type temps
  obtain ⟨u, place, source, strict, operator⟩ := compound_types type
  cases effects : value.hasEffects with
  | true =>
    have keeps : keepsIndex value.hasEffects p = true := by
      rw [effects]
      cases p with
      | var | field => rfl
      | element array index => exact Bool.or_true _
    obtain ⟨pre, target, temps₁, translation, grows, settles⟩ :=
      place_settles checked h place keeps temps
    obtain ⟨em, temps₂, rendered⟩ := h₁ source (temps₁ ++ [t])
    have grows₁ : temps₁ <+: temps₂ ++ [u] :=
      ((prefix_append _ _).trans rendered.grows).trans (prefix_append _ _)
    have emits : expr c.descriptor s (.assign p (some op) value) temps = .ok (_, _) :=
      (emit_bind (typed_eq place temps)).trans
        ((emit_bind translation).trans (update_effects_eq effects rendered pre target))
    refine ⟨_, temps₂ ++ [u], .of_steps type emits (grows.trans grows₁) nofun ?_⟩
    intro types n steps callers m w m' inside enough holds ended T
    obtain ⟨l, m₁, old, v, m₂, r, resolved, holds₁, evaluated, rfl, rfl, combines⟩ :=
      compound_parts checked place source strict operator holds ended
    exact (settles (grows₁.trans inside) enough holds resolved).update grows rendered inside enough
      holds₁ (resolve_keeps resolved) evaluated combines
  | false =>
    obtain ⟨pre, target, temps₁, translation, grows, reaches⟩ :=
      place_reaches checked h place temps
    obtain ⟨em, temps₂, rendered⟩ := h₁ source temps₁
    obtain ⟨-, rfl⟩ := rendered.plain effects
    rw [← effects] at translation
    have emits : expr c.descriptor s (.assign p (some op) value) temps = .ok (_, _) :=
      (emit_bind (typed_eq place temps)).trans
        ((emit_bind translation).trans (update_plain_eq effects rendered pre target))
    refine ⟨_, temps₂, .of_steps type emits grows nofun ?_⟩
    intro types n steps callers m w m' inside enough holds ended T
    obtain ⟨l, m₁, old, v, m₂, r, resolved, holds₁, evaluated, rfl, rfl, combines⟩ :=
      compound_parts checked place source strict operator holds ended
    obtain rfl := plain_state effects evaluated
    exact (reaches inside enough holds resolved).update effects rendered inside enough holds₁
      (resolve_keeps resolved) evaluated combines

/-! ## Increments -/

section

variable {op : StepOp} {old u : Value}

/-- What an increment does at its location. -/
structure Increments (c : Context) (p : Place GridKernel.Expr) (op : StepOp) (l : Location)
    (m : Machine) (old u w : Value) (m' : Machine) : Prop where
  place : (storageOf l).isOf p = true
  read : Eval.readLocation c l m = .ok old m
  applied : apply op.binary old (.int 1) = .ok u
  stores : Stores c l m u w m'

/-- What evaluating an increment says, in the terms of its translation. -/
theorem step_parts (checked : check c.descriptor = .ok ())
    (place : placeType c.descriptor s p = .ok t) (numeric : t.isNumeric = true)
    (holds : Holds c s.names callers m)
    (ended : Eval.eval c (n + 1) (.step p op before) m = .ok v m') :
    ∃ l m₁ old u, Eval.resolve c n p m = .ok l m₁ ∧ old.type = t ∧
      Increments c p op l m₁ old u (Eval.stepped op old) m' ∧
      v = if before then Eval.stepped op old else old := by
  obtain ⟨l, m₁, resolved, rest⟩ := bind_ok ended
  obtain ⟨old, m₂, read, rest⟩ := bind_ok rest
  obtain ⟨⟨⟩, m₃, written, rest⟩ := bind_ok rest
  cases rest
  obtain rfl := (Eval.Reads.reads_location c l).state read
  obtain ⟨typed, holds₁⟩ := ((Eval.sound checked n).place place holds).of_ok resolved
  obtain ⟨rfl, -⟩ := (readLocation_safe holds₁ typed).of_ok read
  obtain ⟨u, applied, converted⟩ := apply_step op numeric
  exact ⟨l, m₂, old, u, resolved, rfl,
    ⟨isOf_of_resolve resolved, read, applied, holds₁, typed, converted, written⟩, rfl⟩

theorem step_nodes_subset (p op before) : p.nodes ⊆ (GridKernel.Expr.step p op before).nodes :=
  subset_cons_self _ _

theorem reaches_stepped (place : (storageOf l).isOf p = true) :
    Reaches (GridKernel.Expr.step p op before).nodes lo hi (storageOf l) :=
  .inl ⟨.step p op before, mem_cons_self, place⟩

/-- C's own increment. -/
theorem Reached.step
    (reached : Reached c steps types pre target p.nodes temps.length temps₁.length m T l m₁)
    (keeps : m.memory.Keeps m₁.memory) (h : Increments c p op l m₁ old u w m') :
    Runs c steps types ⟨pre, .step op before target, false⟩
      (GridKernel.Expr.step p op before).nodes temps.length temps₁.length m T
      (if before then w else old) m' := by
  have sub := step_nodes_subset p op before
  obtain ⟨T₁, safe, Here, first, here, finds⟩ := reached
  refine ⟨m₁, T₁, keeps, first.mono sub,
    fun T' agree => .still ?_⟩
  exact (finds.weaken (·.mono sub)).step (here T' agree) h.read h.applied h.stores
    (reaches_stepped h.place)

theorem step_strict (op : StepOp) : op.binary.isShortCircuit = false := by
  cases op <;> rfl

/-- An element whose index has effects, with its new value. -/
theorem Settled.step_before
    (settled : Settled c steps types pre target p.nodes temps.length temps₁.length m T l m₁)
    (keeps : m.memory.Keeps m₁.memory) (h : Increments c p op l m₁ old u w m') :
    Runs c steps types
      ⟨pre, .assign target (.binary op.binary target (.literal (.int 1))), false⟩
      (GridKernel.Expr.step p op before).nodes temps.length temps₁.length m T w m' := by
  obtain ⟨T₁, first, finds⟩ := settled
  refine ⟨m₁, T₁, keeps, first.mono (step_nodes_subset _ _ _),
    fun T' agree => .still ?_⟩
  have here : Beyond m₁ T₁ temps₁.length m₁ T' := ⟨.refl _, agree⟩
  refine finds.assign_passive here ?_ h.stores (reaches_stepped h.place)
  exact binary_takes (step_strict op) h.applied
    (.passive (finds.loaded here h.read) (literal_quiet _ (.int 1)))

/-- An element whose index has effects, with its old value. -/
theorem Settled.step_after
    (settled : Settled c steps types pre target p.nodes temps.length temps₁.length m T l m₁)
    (grows : temps <+: temps₁) (inside : temps₁ ++ [old.type] <+: types)
    (moves : m.memory.Keeps m'.memory) (h : Increments c p op l m₁ old u w m') :
    Runs c steps types ⟨pre ++ [.assign (.temp temps₁.length) target,
        .assign target (.binary op.binary (.temp temps₁.length) (.literal (.int 1)))],
        .temp temps₁.length, true⟩
      (GridKernel.Expr.step p op before).nodes temps.length (temps₁ ++ [old.type]).length m T old
      m' := by
  have sub := step_nodes_subset p op before
  have allocated : (temps₁ ++ [old.type]).length = temps₁.length + 1 := length_append
  have low := grows.length_le
  obtain ⟨T₁, first, finds⟩ := settled
  have held := T₁.set_self temps₁.length old
  have here : Beyond m₁ T₁ temps₁.length m₁ (T₁.set temps₁.length old) :=
    ⟨.refl _, (T₁.set_outside _ old).agree⟩
  -- The old value is kept, and the element gets the new one.
  have kept : Leads c steps types [.assign (.temp temps₁.length) target] p.nodes temps₁.length
      (temps₁.length + 1) m₁ T₁ m₁ (T₁.set temps₁.length old) :=
    .keep ((finds.loaded ⟨.refl _, .refl _ T₁⟩ h.read).mono fun _ h => h.toBusy) (.refl T₁)
      (Nat.le_refl _) (type_of_front inside)
  have stored : Leads c steps types
      [.assign target (.binary op.binary (.temp temps₁.length) (.literal (.int 1)))]
      (GridKernel.Expr.step p op before).nodes temps.length (temps₁.length + 1) m₁
      (T₁.set temps₁.length old) m' (T₁.set temps₁.length old) := by
    refine .single (finds.assign_passive here ?_ h.stores (reaches_stepped h.place)) (.refl _)
    exact binary_takes (step_strict op) h.applied (.passive (temp_quiet held) (literal_quiet _ _))
  rw [allocated]
  refine ⟨m', T₁.set temps₁.length old, moves,
    (first.mono sub (Nat.le_refl _) (Nat.le_succ _)).append
      ((kept.mono sub low).append stored), fun T' agree => .still ?_⟩
  exact temp_busy ((agree _ (Nat.lt_succ_self _)).trans held)

/-- An increment that is translated to C's own. -/
theorem rendered_step (checked : check c.descriptor = .ok ())
    (type : typeOf c.descriptor s (.step p op before) = .ok (some t)) (grows : temps <+: temps₁)
    (translation : expr c.descriptor s (.step p op before) temps =
      .ok (⟨pre, .step op before target, false⟩, temps₁))
    (reaches : Arrives c s p temps pre target temps₁) :
    Rendered c s (.step p op before) t temps ⟨pre, .step op before target, false⟩ temps₁ := by
  obtain ⟨_, ⟨⟩, place, numeric⟩ := typeOf_step type
  refine .of_steps type translation grows nofun ?_
  intro types n steps callers m v m' inside enough holds ended T
  obtain ⟨l, m₁, old, u, resolved, -, increments, rfl⟩ :=
    step_parts checked place numeric holds ended
  exact (reaches inside enough holds resolved).step (resolve_keeps resolved) increments

/-- An increment of an element whose index has effects. -/
theorem rendered_step_kept (checked : check c.descriptor = .ok ()) (h : Faithful c s index)
    (effects : index.hasEffects = true)
    (type : typeOf c.descriptor s (.step (.element array index) op before) = .ok (some t)) (temps) :
    ∃ em temps',
      Rendered c s (.step (.element array index) op before) t temps em temps' := by
  obtain ⟨_, ⟨⟩, place, numeric⟩ := typeOf_step type
  obtain ⟨position, elements⟩ := placeType_element place
  obtain ⟨em, temps₁, rendered⟩ := h position temps
  have grows : temps <+: temps₁ ++ [.int] := rendered.grows.trans (prefix_append _ _)
  have emits : expr c.descriptor s (.step (.element array index) op before) temps =
      stepElement op before t array em temps₁ := by
    rw [expr, step, emit_bind rendered.translation, if_pos effects]
    exact emit_bind (typed_eq elements temps₁)
  have settles := settles_kept checked rendered elements
  cases before with
  | true =>
    have stepped : stepElement op true t array em temps₁ = .ok (_, temps₁ ++ [.int]) := rfl
    refine ⟨_, temps₁ ++ [.int], .of_steps type (emits.trans stepped) grows Bool.noConfusion ?_⟩
    intro types n steps callers m v m' inside enough holds ended T
    obtain ⟨l, m₁, old, u, resolved, -, increments, rfl⟩ :=
      step_parts checked place numeric holds ended
    exact (settles inside enough holds resolved).step_before (resolve_keeps resolved)
      increments
  | false =>
    have stepped : stepElement op false t array em temps₁ = .ok (_, temps₁ ++ [.int] ++ [t]) := rfl
    refine ⟨_, temps₁ ++ [.int] ++ [t], .of_steps type (emits.trans stepped)
      (grows.trans (prefix_append _ _)) Bool.noConfusion ?_⟩
    intro types n steps callers m v m' inside enough holds ended T
    obtain ⟨l, m₁, old, u, resolved, rfl, increments, rfl⟩ :=
      step_parts checked place numeric holds ended
    exact (settles ((prefix_append _ _).trans inside) enough holds resolved).step_after
      grows inside (eval_keeps ended) increments

theorem faithful_step (checked : check c.descriptor = .ok ()) (h : FaithfulPlace c s p)
    (op before) : Faithful c s (.step p op before) := by
  intro t type temps
  cases p with
  | var name =>
    exact ⟨_, temps, rendered_step checked type prefix_rfl rfl (settles_var name temps).arrives⟩
  | field name =>
    exact ⟨_, temps, rendered_step checked type prefix_rfl rfl
      (settles_field name temps).arrives⟩
  | element array index =>
    cases effects : index.hasEffects with
    | true => exact rendered_step_kept checked h effects type temps
    | false =>
      obtain ⟨_, ⟨⟩, place, -⟩ := typeOf_step type
      obtain ⟨position, -⟩ := placeType_element place
      obtain ⟨em, temps₁, rendered⟩ := h position temps
      obtain ⟨pre, rfl⟩ := rendered.plain effects
      have emits : expr c.descriptor s (.step (.element array index) op before) temps₁ =
          .ok (⟨[], .step op before (.element array em.value), false⟩, temps₁) := by
        rw [expr, step, emit_bind rendered.translation, effects, pre]
        rfl
      exact ⟨_, temps₁, rendered_step checked type prefix_rfl emits
        (arrives_plain rendered effects array)⟩

end

end GridKernel.Target
