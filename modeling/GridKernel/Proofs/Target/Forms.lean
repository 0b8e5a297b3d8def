import GridKernel.Proofs.Target.Operands
import GridKernel.Proofs.Target.Operators

/-!
# Expressions without stores and calls

One lemma for each form: its translation means the same if those of its parts do.
-/

namespace GridKernel.Target

open List Typing
open Eval (Context Machine Holds)
open Typing (typeOf valueType check)

/-! ## From the parts to the whole -/

section

variable {em : Emitted}

/-- A value that goes on from the value of a part. -/
theorem Runs.extend (h : Runs c steps types em nodes lo hi m T v m₁)
    (sub : ∀ e ∈ nodes, e ∈ nodes')
    (next : ∀ {mid T₁ T₂}, Takes (At mid T₁) (exec c steps types em.value)
      (Busy (Reaches nodes' lo hi) v) (At m₁ T₂) (SelfIndexed nodes') →
      Takes (At mid T₁) (exec c steps types value) (Busy (Reaches nodes' lo hi) w) (At m' T₂)
        (SelfIndexed nodes')) :
    Runs c steps types ⟨em.pre, value, simple⟩ nodes' lo hi m T w m' := by
  obtain ⟨mid, T₁, shape, before, yields⟩ := h.mono sub
  refine ⟨mid, T₁, shape, before, fun T' agree => ?_⟩
  obtain ⟨T₂, outside, taken⟩ := yields T' agree
  exact ⟨T₂, outside, next taken⟩

/-- A value that is computed from operands. -/
theorem Prepared.extend (h : Prepared c steps types ems nodes lo hi m T vs m₁)
    (sub : ∀ e ∈ nodes, e ∈ nodes')
    (next : ∀ {mid T₁ T₂}, Operands (execs c steps types (ems.map Emitted.value)) vs mid T₁ m₁ T₂
      (Reaches nodes' lo hi) (SelfIndexed nodes') →
      Takes (At mid T₁) (exec c steps types value) (Busy (Reaches nodes' lo hi) w) (At m' T₂)
        (SelfIndexed nodes')) :
    Runs c steps types ⟨ems.flatMap Emitted.pre, value, simple⟩ nodes' lo hi m T w m' := by
  obtain ⟨mid, T₁, shape, before, given⟩ := h.mono sub
  refine ⟨mid, T₁, shape, before, fun T' agree => ?_⟩
  obtain ⟨T₂, outside, operands⟩ := given T' agree
  exact ⟨T₂, outside, next operands⟩

/-! ## Reading -/

/-- Storage is read after what was needed to find it; what is still to be written is in conflict
with that. -/
theorem loadFrom_takes (found : Takes (At m T) (read c st) (· = v) (At m T) bad)
    (within : ∀ st ∈ acc.writes, busy st) (pending : ∀ st ∈ acc.pending, busy st)
    (conflict : st ∈ acc.pending → bad) :
    Takes (At m T) (loadFrom c st acc) (Busy busy v) (At m T) bad := by
  unfold loadFrom
  split
  · rename_i written
    exact .conflict (conflict written)
  · refine found.andThen ?_
    rintro _ rfl
    exact .ret ⟨rfl, within, pending⟩

theorem elementAt_takes (sized : Eval.arraySize c array m = .ok size m)
    (inBounds : Eval.checkIndex array index size m = .ok i m) :
    Takes (At m T) (elementAt c array index) (· = .element array i) (At m T) bad := by
  refine onMachine_takes ?_
  change EStateM.bind (Eval.arraySize c array) _ m = _
  unfold EStateM.bind
  rw [sized]
  change EStateM.bind (Eval.checkIndex array index size) _ m = _
  unfold EStateM.bind
  rw [inBounds]
  rfl

end

/-! ## Leaves -/

/-- An expression that is translated to a single one without temporaries. -/
theorem Rendered.leaf (type : typeOf c.descriptor s e = .ok (some t))
    (translation : expr c.descriptor s e temps = .ok (⟨[], value, simple⟩, temps))
    (reads : ∀ {types steps n m v m'}, Eval.eval c (n + 1) e m = .ok v m' → ∀ {T bad}, Takes
      (At m T) (exec c steps types value) (Busy (fun _ => False) v) (At m' T) bad) :
    Rendered c s e t temps ⟨[], value, simple⟩ temps :=
  .of_steps type translation prefix_rfl (fun _ => ⟨rfl, rfl⟩) fun _ _ _ ended _ =>
    .direct fun _ => .still ((reads ended).mono fun _ h => h.imp fun _ => False.elim)

theorem faithful_literal (v) : Faithful c s (.literal v) := by
  refine fun type temps => ⟨_, temps, .leaf type rfl ?_⟩
  intro types steps n m w m' ended T bad
  obtain ⟨rfl, rfl⟩ := eval_literal ended
  exact .ret ⟨rfl, forall_mem_nil _, forall_mem_nil _⟩

/-- A leaf that reads one piece of storage. -/
theorem load_takes (loads : exec c steps types value = loadFrom c st {})
    (found : Takes (At m T) (read c st) (· = v) (At m T) bad) :
    Takes (At m T) (exec c steps types value) (Busy (fun _ => False) v) (At m T) bad := by
  rw [loads]
  exact loadFrom_takes found (forall_mem_nil _) (forall_mem_nil _) nofun

theorem faithful_var (name) : Faithful c s (.var name) := by
  refine fun type temps => ⟨_, temps, .leaf type rfl ?_⟩
  intro types steps n m v m' ended T bad
  obtain rfl := (Eval.Reads.reads_local name).state ended
  have loads : exec c steps types (.var name) = loadFrom c (.var name) {} := by rw [exec]
  exact load_takes loads (read_var_takes ended)

theorem faithful_field (name) : Faithful c s (.field name) := by
  refine fun type temps => ⟨_, temps, .leaf type rfl ?_⟩
  intro types steps n m v m' ended T bad
  obtain rfl := (Eval.Reads.reads_scalar c name).state ended
  have loads : exec c steps types (.member name) = loadFrom c (.field name) {} := by rw [exec]
  exact load_takes loads (onMachine_takes ended)

theorem faithful_length (array) : Faithful c s (.length array) := by
  refine fun type temps => ⟨_, temps, .leaf type rfl ?_⟩
  intro types steps n m v m' ended T bad
  rw [exec]
  refine (onMachine_takes (x := Eval.lengthOf c array) ended).andThen ?_
  rintro _ rfl
  exact .ret ⟨rfl, forall_mem_nil _, forall_mem_nil _⟩

/-! ## Elements -/

theorem Reaches.tail (h : Reaches (node :: nodes) lo hi st) (plain : st.isAssigned node = false) :
    Reaches nodes lo hi st := by
  rcases h with ⟨other, member, assigned⟩ | own
  · rcases mem_cons.mp member with rfl | member
    · rw [plain] at assigned
      cases assigned
    · exact .inl ⟨other, member, assigned⟩
  · exact .inr own

/-- What a translated expression can write is assigned to somewhere in it. -/
theorem Reaches.assigns (h : Reaches e.nodes lo hi st) (place : st.isOf target = true) :
    Target.assigns target e = true := by
  have same : ∀ {other : Place GridKernel.Expr}, st.isOf other = true →
      sameStorage target other = true := by
    intro other within
    cases st <;> cases target <;> cases other <;> simp_all [Storage.isOf, sameStorage]
  rcases h with ⟨node, member, assigned⟩ | ⟨n, rfl, -⟩
  · refine any_eq_true.mpr ⟨node, member, ?_⟩
    cases node with
    | assign other op value | step other op before => exact same assigned
    | _ => cases assigned
  · cases target <;> cases place

/-- The index of an element whose array has the same size before and after it. -/
theorem element_of_eval (ended : Eval.eval c (n + 1) (.element array index) m = .ok v m') :
    ∃ w size i, Eval.eval c n index m = .ok w m' ∧ Eval.arraySize c array m' = .ok size m' ∧
      Eval.checkIndex array w size m' = .ok i m' ∧ Eval.readElement c array i m' = .ok v m' := by
  obtain ⟨w, m₁, evaluated, rest⟩ := bind_ok ended
  obtain ⟨size, m₂, sized, rest⟩ := bind_ok rest
  obtain ⟨i, m₃, inBounds, loaded⟩ := bind_ok rest
  obtain rfl := (Eval.Reads.measures c array).state sized
  obtain rfl := (Eval.Reads.checks array w size).state inBounds
  obtain rfl := (Eval.Reads.reads_element c array i).state loaded
  exact ⟨w, size, i, evaluated, sized, inBounds, loaded⟩

theorem faithful_element (h : Faithful c s index) (array) :
    Faithful c s (.element array index) := by
  intro t type temps
  obtain ⟨_, -, position, -⟩ := typeOf_element type
  obtain ⟨em, temps', rendered⟩ := h position temps
  refine ⟨⟨em.pre, .element array em.value, true⟩, temps', .of_steps type
    (emit_bind rendered.translation) rendered.grows rendered.plain ?_⟩
  intro types n steps callers m v m' inside enough holds ended T
  obtain ⟨w, size, i, evaluated, sized, inBounds, loaded⟩ := element_of_eval ended
  refine (rendered.runs inside enough holds evaluated T).extend
    (fun _ => mem_cons_of_mem _) fun taken => ?_
  rw [exec]
  refine taken.andThen ?_
  rintro ⟨_, acc⟩ ⟨rfl, within, pending⟩
  refine (elementAt_takes sized inBounds).eq_andThen ?_
  refine loadFrom_takes (onMachine_takes loaded) within pending fun written => ?_
  have assigned : assigns (.element array index) index = true :=
    ((pending _ written).tail rfl).assigns (beq_self_eq_true array)
  exact ⟨_, mem_cons_self, assigned⟩

/-! ## Operators of one operand -/

theorem ok_of_orTrap (h : Eval.orTrap r m = .ok a m') : r = .ok a ∧ m' = m := by
  cases r with
  | ok b =>
    cases h
    exact ⟨rfl, rfl⟩
  | error t => cases h

theorem faithful_unary {operand : GridKernel.Expr} (h : Faithful c s operand) (op) :
    Faithful c s (.unary op operand) := by
  intro t type temps
  obtain ⟨u, _, -, inner, -⟩ := typeOf_unary type
  obtain ⟨em, temps', rendered⟩ := h inner temps
  refine ⟨⟨em.pre, .unary op em.operand, false⟩, temps', .of_steps type
    (emit_bind rendered.translation) rendered.grows rendered.plain ?_⟩
  intro types n steps callers m v m' inside enough holds ended T
  obtain ⟨w, m₁, evaluated, rest⟩ := bind_ok ended
  obtain ⟨applied, rfl⟩ := ok_of_orTrap rest
  refine (rendered.runs inside enough holds evaluated T).extend
    (fun _ => mem_cons_of_mem _) fun taken => ?_
  rw [exec, exec_operand]
  refine taken.andThen ?_
  rintro ⟨_, acc⟩ ⟨rfl, within, pending⟩
  exact (orTrap_takes applied).eq_andThen (.ret ⟨rfl, within, pending⟩)

section

theorem Operands.single (h : Takes (At m T) x (Busy reach v) (At m' T') bad) :
    Operands [x] [v] m T m' T' reach bad :=
  ⟨fun _ => False, reach, true, fun _ => False.elim, fun _ h => h, nofun, .active h .nil⟩

theorem call_takes {callee : Callee} (plain : ∀ op width, callee ≠ .atomic op width)
    (operands : Operands (execs c steps types args) vs m T m₁ T' reach bad)
    (called : Takes (At m₁ T') (function c steps callee vs) (· = w) (At m' T') bad) :
    Takes (At m T) (exec c steps types (.call callee args)) (Busy reach w) (At m' T') bad := by
  rw [exec_call plain]
  refine operands.unsequenced.andThen ?_
  rintro ⟨_, acc⟩ ⟨rfl, within, -⟩
  exact called.eq_andThen (.ret ⟨rfl, within, forall_mem_nil _⟩)

theorem convert_takes (width)
    (h : Takes (At m T) (exec c steps types value) (Busy reach v) (At m' T') bad) :
    Takes (At m T) (exec c steps types (.call (.convert width) [value]))
      (Busy reach (v.cast width.scalar)) (At m' T') bad := by
  refine call_takes nofun (Operands.single h) ?_
  exact .ret rfl

theorem cast_takes (h : Takes (At m T) (exec c steps types value) (Busy reach v) (At m' T') bad)
    (exact : (v.type.isFloating && type.isIntegral) = false) :
    Takes (At m T) (exec c steps types (.cast type value)) (Busy reach (v.cast type)) (At m' T')
      bad := by
  rw [exec]
  refine h.andThen ?_
  rintro ⟨_, acc⟩ ⟨rfl, within, pending⟩
  dsimp only
  rw [exact]
  exact .ret ⟨rfl, within, pending⟩

end

theorem castTo_pre (source type em) : (castTo source type em).pre = em.pre := by
  unfold castTo
  split
  · split <;> rfl
  · rfl

theorem castTo_takes {em : Emitted} (type)
    (h : Takes (At m T) (exec c steps types em.value) (Busy reach v) (At m' T') bad) :
    Takes (At m T) (exec c steps types (castTo v.type type em).value)
      (Busy reach (v.cast type)) (At m' T') bad := by
  unfold castTo
  split
  · rename_i rounds
    obtain ⟨floating, integral⟩ := (Bool.and_eq_true _ _).mp rounds
    split
    · exact convert_takes .long h
    · exact convert_takes .int h
    · rename_i wide _
      have narrowed := Value.cast_by_int floating integral wide
      rw [← narrowed]
      refine cast_takes (convert_takes .int h) ?_
      rw [Value.type_cast]
      rfl
  · rename_i direct
    refine cast_takes ?_ (by simpa using direct)
    rw [exec_operand]
    exact h

theorem faithful_cast (checked : check c.descriptor = .ok ()) {value : GridKernel.Expr}
    (h : Faithful c s value) (type implicit) : Faithful c s (.cast type value implicit) := by
  intro t typed temps
  obtain ⟨-, u, source, -⟩ := typeOf_cast typed
  obtain ⟨em, temps', rendered⟩ := h source temps
  refine ⟨castTo u type em, temps', .of_steps typed ?_ rendered.grows ?_ ?_⟩
  · exact (emit_bind (typed_eq (valueType_eq_ok.mpr source) temps)).trans
      (emit_bind rendered.translation)
  · rw [castTo_pre]
    exact rendered.plain
  · intro types n steps callers m v m' inside enough holds ended T
    obtain ⟨w, m₁, evaluated, applied⟩ := bind_ok ended
    cases applied
    obtain ⟨rfl, -⟩ := ((Eval.sound checked n).value source holds).of_ok evaluated
    have runs : Runs c steps types
        ⟨em.pre, (castTo w.type type em).value, (castTo w.type type em).simple⟩
        (GridKernel.Expr.cast type value implicit).nodes temps.length temps'.length m T _ m' :=
      (rendered.runs inside enough holds evaluated T).extend
        (fun _ => mem_cons_of_mem _) fun taken => castTo_takes type taken
    rw [← castTo_pre w.type type em] at runs
    exact runs

/-! ## Operands that are evaluated only if they are needed -/

theorem Busy.after {α : Type} {busy : Storage → Prop} {v : α} {a : α} {acc acc' : Accesses}
    (h : Busy busy v (a, acc')) (within : ∀ st ∈ acc.writes, busy st) :
    Busy busy v (a, acc.settled.join acc') where
  value := h.value
  writes _ member := (mem_append.mp member).elim (within _) (h.writes _)
  pending := h.pending

/-- Only a boolean is a condition. -/
theorem boolean_of_truth (h : Eval.truth v m = .ok b m') : v = .boolean b ∧ m' = m := by
  cases v with
  | boolean b' =>
    cases h
    exact ⟨rfl, rfl⟩
  | _ => cases h

namespace Yields

variable {cond : Expr}

theorem conditional (first : Yields c steps types cond nodes lo hi m T (.boolean b) m₁)
    (second : ∀ T₁, Yields c steps types (bif b then x else y) nodes lo hi m₁ T₁ v m') :
    Yields c steps types (.conditional cond x y) nodes lo hi m T v m' := by
  obtain ⟨T₁, outside, taken⟩ := first
  obtain ⟨T', outside', taken'⟩ := second T₁
  refine ⟨T', outside.trans outside', ?_⟩
  rw [exec]
  refine taken.andThen ?_
  rintro ⟨_, acc⟩ ⟨rfl, within, -⟩
  refine (truth_takes b).eq_andThen ?_
  cases b with
  | true | false => exact taken'.andThen fun r busy => .ret (busy.after within)

/-- The first operand of a logical operator decides. -/
theorem logical_decided (logical : op.isShortCircuit = true)
    (first : Yields c steps types x nodes lo hi m T (.boolean b) m') (decides : b = true ↔ op = .or)
    :
    Yields c steps types (.binary op x y) nodes lo hi m T (.boolean b) m' := by
  obtain ⟨T₁, outside, taken⟩ := first
  refine ⟨T₁, outside, ?_⟩
  rw [exec, if_pos logical]
  refine taken.andThen ?_
  rintro ⟨_, acc⟩ ⟨rfl, within, -⟩
  refine (truth_takes b).eq_andThen ?_
  rw [if_pos (propext decides)]
  exact .ret ⟨rfl, within, forall_mem_nil _⟩

/-- The second operand of a logical operator decides. -/
theorem logical (logical : op.isShortCircuit = true)
    (first : Yields c steps types x nodes lo hi m T (.boolean b) m₁)
    (undecided : ¬(b = true ↔ op = .or))
    (second : ∀ T₁, Yields c steps types y nodes lo hi m₁ T₁ (.boolean b') m') :
    Yields c steps types (.binary op x y) nodes lo hi m T (.boolean b') m' := by
  obtain ⟨T₁, outside, taken⟩ := first
  obtain ⟨T', outside', taken'⟩ := second T₁
  refine ⟨T', outside.trans outside', ?_⟩
  rw [exec, if_pos logical]
  refine taken.andThen ?_
  rintro ⟨_, acc⟩ ⟨rfl, within, -⟩
  refine (truth_takes b).eq_andThen ?_
  rw [if_neg fun same => undecided (iff_of_eq same)]
  refine taken'.andThen ?_
  rintro ⟨_, acc'⟩ ⟨rfl, within', pending⟩
  refine (truth_takes b').eq_andThen (.ret ?_)
  exact Busy.after ⟨rfl, within', pending⟩ within

end Yields

theorem faithful_conditional (checked : check c.descriptor = .ok ())
    {cond thenValue elseValue : GridKernel.Expr} (h : Faithful c s cond)
    (h₁ : Faithful c s thenValue) (h₂ : Faithful c s elseValue) :
    Faithful c s (.conditional cond thenValue elseValue) := by
  intro t type temps
  obtain ⟨_, ⟨⟩, condition, first, second⟩ := typeOf_conditional type
  obtain ⟨em, temps₁, rendered⟩ := h condition temps
  obtain ⟨em₁, temps₂, rendered₁⟩ := h₁ first temps₁
  obtain ⟨em₂, temps₃, rendered₂⟩ := h₂ second temps₂
  have grows := (rendered.grows.trans rendered₁.grows).trans rendered₂.grows
  refine ⟨⟨[], .conditional em.inlineOperand em₁.inlineOperand em₂.inlineOperand, false⟩, temps₃,
    .of_steps type ?_ grows (fun plain => ⟨rfl, ?_⟩) ?_⟩
  · exact (emit_bind rendered.translation).trans
      ((emit_bind rendered₁.translation).trans (emit_bind rendered₂.translation))
  · obtain ⟨front, last⟩ := Bool.or_eq_false_iff.mp plain
    obtain ⟨start, middle⟩ := Bool.or_eq_false_iff.mp front
    rw [(rendered₂.plain last).2, (rendered₁.plain middle).2, (rendered.plain start).2]
  intro types n steps callers m v m' inside enough holds ended T
  obtain ⟨w, m₁, decided, rest⟩ := bind_ok ended
  obtain ⟨b, m₂, tested, rest⟩ := bind_ok rest
  obtain ⟨rfl, rfl⟩ := boolean_of_truth tested
  obtain ⟨-, holds₁⟩ := ((Eval.sound checked n).value condition holds).of_ok decided
  have inside₂ := rendered₂.grows.trans inside
  have low := rendered.grows.length_le
  have middle := rendered₁.grows.length_le
  have high := rendered₂.grows.length_le
  have front : ∀ node ∈ cond.nodes ++ thenValue.nodes,
      node ∈ (GridKernel.Expr.conditional cond thenValue elseValue).nodes := fun _ member =>
    mem_cons_of_mem _ (mem_append_left _ member)
  refine .direct fun T => ?_
  have start := rendered.runs (rendered₁.grows.trans inside₂) enough holds decided T
  refine Yields.conditional (start.mono (fun _ member => front _ (mem_append_left _ member))
    (Nat.le_refl _) (by omega)).inlined fun T₁ => ?_
  cases b with
  | true =>
    exact ((rendered₁.runs inside₂ enough holds₁ rest T₁).mono
      (fun _ member => front _ (mem_append_right _ member)) low high).inlined
  | false =>
    exact ((rendered₂.runs inside enough holds₁ rest T₁).mono
      (fun _ member => mem_cons_of_mem _ (mem_append_right _ member)) (by omega)
      (Nat.le_refl _)).inlined

/-- The operands of a logical operator that were evaluated, and its value. -/
theorem logical_of_eval (logical : op.isShortCircuit = true)
    (ended : Eval.eval c (n + 1) (.binary op lhs rhs) m = .ok v m') :
    ∃ b m₁, Eval.eval c n lhs m = .ok (.boolean b) m₁ ∧
      (((b = true ↔ op = .or) ∧ v = .boolean b ∧ m' = m₁) ∨
        (¬(b = true ↔ op = .or) ∧ ∃ b', Eval.eval c n rhs m₁ = .ok (.boolean b') m' ∧
          v = .boolean b')) := by
  have second : ∀ {m₁ : Machine}, (do return Value.boolean (← Eval.truth (← Eval.eval c n rhs)))
      m₁ = EStateM.Result.ok v m' →
      ∃ b', Eval.eval c n rhs m₁ = .ok (.boolean b') m' ∧ v = .boolean b' := by
    intro m₁ rest
    obtain ⟨r, m₂, evaluated, rest⟩ := bind_ok rest
    obtain ⟨b', m₃, tested, rest⟩ := bind_ok rest
    obtain ⟨rfl, rfl⟩ := boolean_of_truth tested
    cases rest
    exact ⟨b', evaluated, rfl⟩
  cases op <;> cases logical
  all_goals
    obtain ⟨l, m₁, evaluated, rest⟩ := bind_ok ended
    obtain ⟨b, m₂, tested, rest⟩ := bind_ok rest
    obtain ⟨rfl, rfl⟩ := boolean_of_truth tested
    refine ⟨b, m₂, evaluated, ?_⟩
  case and =>
    cases b with
    | false =>
      cases rest
      exact .inl ⟨by decide, rfl, rfl⟩
    | true => exact .inr ⟨by decide, second rest⟩
  case or =>
    cases b with
    | true =>
      cases rest
      exact .inl ⟨by decide, rfl, rfl⟩
    | false => exact .inr ⟨by decide, second rest⟩

/-- The translation of `&&` and `||`. -/
theorem faithful_logical (checked : check c.descriptor = .ok ())
    (logical : op.isShortCircuit = true) (h : Faithful c s lhs) (h₁ : Faithful c s rhs) :
    Faithful c s (.binary op lhs rhs) := by
  intro t type temps
  obtain ⟨l, r, _, ⟨⟩, left, right, -⟩ := typeOf_binary type
  obtain ⟨em, temps₁, rendered⟩ := h left temps
  obtain ⟨em₁, temps₂, rendered₁⟩ := h₁ right temps₁
  refine ⟨⟨[], .binary op em.inlineOperand em₁.inlineOperand, false⟩, temps₂, .of_steps type ?_
    (rendered.grows.trans rendered₁.grows) (fun plain => ⟨rfl, ?_⟩) ?_⟩
  · rw [expr, if_pos logical, emit_bind rendered.translation, emit_bind rendered₁.translation]
    rfl
  · obtain ⟨first, second⟩ := Bool.or_eq_false_iff.mp plain
    rw [(rendered₁.plain second).2, (rendered.plain first).2]
  intro types n steps callers m v m' inside enough holds ended T
  obtain ⟨b, m₁, evaluated, outcome⟩ := logical_of_eval logical ended
  refine .direct fun T => ?_
  have start := rendered.runs (rendered₁.grows.trans inside) enough holds evaluated T
  have first := (start.mono (fun _ member => mem_cons_of_mem (.binary op lhs rhs)
    (mem_append_left rhs.nodes member)) (Nat.le_refl _) rendered₁.grows.length_le).inlined
  rcases outcome with ⟨decides, rfl, rfl⟩ | ⟨undecided, b', evaluated', rfl⟩
  · exact first.logical_decided logical decides
  · obtain ⟨-, holds₁⟩ := ((Eval.sound checked n).value left holds).of_ok evaluated
    refine first.logical logical undecided fun T₁ => ?_
    exact ((rendered₁.runs inside enough holds₁ evaluated' T₁).mono
      (fun _ member => mem_cons_of_mem _ (mem_append_right _ member))
      rendered.grows.length_le (Nat.le_refl _)).inlined

/-! ## Operators of two operands -/

theorem combine_pre (op t l r pre) : (combine op t l r pre).pre = pre := by
  unfold combine
  split
  · split <;> rfl
  · rfl
  · rfl

section

theorem binary_takes (strict : op.isShortCircuit = false) (applied : apply op a b = .ok v)
    (operands : Operands [exec c steps types l, exec c steps types r] [a, b] m T m' T' reach bad) :
    Takes (At m T) (exec c steps types (.binary op l r)) (Busy reach v) (At m' T') bad := by
  rw [exec, if_neg (by rw [strict]; exact Bool.false_ne_true)]
  refine operands.both.andThen ?_
  rintro ⟨_, acc⟩ ⟨rfl, within, pending⟩
  exact (orTrap_takes applied).eq_andThen (.ret ⟨rfl, within, pending⟩)

/-- An operator as it is translated. -/
theorem combine_takes (strict : op.isShortCircuit = false)
    (typed : Typing.binaryType op a.type b.type = .ok t) (applied : Eval.binary op a b = .ok v)
    (operands : Operands [exec c steps types l, exec c steps types r] [a, b] m T m' T' reach bad)
    (pre) :
    Takes (At m T) (exec c steps types (combine op a.type l r pre).value) (Busy reach v) (At m' T')
      bad := by
  unfold combine
  split
  · split
    · exact call_takes nofun operands (orTrap_takes applied)
    · exact binary_takes strict ((apply_eq typed).trans applied) operands
  · change Takes _ (exec c steps types (.shiftUnsigned a.type l r)) _ _ _
    rw [exec]
    refine operands.both.andThen ?_
    rintro ⟨_, acc⟩ ⟨rfl, within, pending⟩
    have same : apply .ushr (a.cast a.type) b = .ok v := by
      rw [Value.cast_type]
      exact (apply_eq typed).trans applied
    exact (orTrap_takes same).eq_andThen (.ret ⟨rfl, within, pending⟩)
  · exact binary_takes strict ((apply_eq typed).trans applied) operands

end

theorem binary_of_eval (strict : op.isShortCircuit = false)
    (ended : Eval.eval c (n + 1) (.binary op lhs rhs) m = .ok v m') :
    ∃ l r m₁, Eval.eval c n lhs m = .ok l m₁ ∧ Eval.eval c n rhs m₁ = .ok r m' ∧
      Eval.binary op l r = .ok v := by
  cases op <;> cases strict
  all_goals
    obtain ⟨l, m₁, first, rest⟩ := bind_ok ended
    obtain ⟨r, m₂, second, rest⟩ := bind_ok rest
    obtain ⟨applied, rfl⟩ := ok_of_orTrap rest
    exact ⟨l, r, m₁, first, second, applied⟩

theorem hazard_of_plain (plain : ∀ e ∈ es, e.hasEffects = false) : hazard es = false := by
  have none : es.any GridKernel.Expr.hasEffects = false := by simpa using plain
  rw [hazard, none]
  rfl

/-- A literal is no hazard to one other operand. -/
theorem hazard_literal (e v) : hazard [e, .literal v] = false := by
  cases literal : e.isLiteral <;>
    simp [hazard, literal, show (GridKernel.Expr.literal v).isLiteral = true from rfl]

/-- With two operands that are not literals there is a hazard exactly if one of them has effects. -/
theorem hazard_pair (literal : ¬e.isLiteral = true) (literal' : ¬e'.isLiteral = true) :
    hazard [e, e'] = (e.hasEffects || e'.hasEffects) := by
  simp [hazard, literal, literal']

theorem faithful_binary (checked : check c.descriptor = .ok ()) (strict : op.isShortCircuit = false)
    (h : Faithful c s lhs) (h₁ : Faithful c s rhs) : Faithful c s (.binary op lhs rhs) := by
  intro t type temps
  obtain ⟨l, r, _, ⟨⟩, left, right, operator⟩ := typeOf_binary type
  obtain ⟨em, temps₁, rendered⟩ := h left temps
  let kept := hoisted (hazard [lhs, rhs] && !lhs.isLiteral) l em temps₁
  obtain ⟨em₁, temps', rendered₁⟩ := h₁ right kept.2
  have laid : Laid c s (hazard [lhs, rhs]) [lhs, rhs] temps [kept.1, em₁] temps' :=
    .cons rendered (.last rendered₁)
  let whole := combine op l kept.1.operand em₁.operand (kept.1.pre ++ em₁.pre)
  refine ⟨whole, temps', .of_steps type ?_ laid.grows (fun plain => ?_) ?_⟩
  · rw [expr, if_neg (by rw [strict]; exact Bool.false_ne_true),
      emit_bind (typed_eq (valueType_eq_ok.mpr left) temps), emit_bind (rendered.keep _)]
    exact emit_bind rendered₁.translation
  · have effects : ∀ e ∈ [lhs, rhs], e.hasEffects = false := by
      simpa using Bool.or_eq_false_iff.mp plain
    have plainly := hazard_of_plain effects
    rw [plainly] at laid
    obtain ⟨pres, same⟩ := laid.no_temps effects
    refine ⟨?_, same⟩
    rw [combine_pre, ← pres, flatMap_cons, flatMap_singleton]
  · intro types n steps callers m v m' inside enough holds ended T
    obtain ⟨a, b, m₁, first, second, applied⟩ := binary_of_eval strict ended
    obtain ⟨rfl, holds₁⟩ := ((Eval.sound checked n).value left holds).of_ok first
    obtain ⟨rfl, -⟩ := ((Eval.sound checked n).value right holds₁).of_ok second
    have prepared := laid.prepared checked inside holds
      (.cons enough first (.cons enough second .nil)) T
    have pres : [kept.1, em₁].flatMap Emitted.pre = whole.pre := by
      rw [combine_pre, flatMap_cons, flatMap_singleton]
    have runs : Runs c steps types ⟨[kept.1, em₁].flatMap Emitted.pre, whole.value, whole.simple⟩
        (GridKernel.Expr.binary op lhs rhs).nodes temps.length temps'.length m T v m' := by
      refine prepared.extend (fun _ member => mem_cons_of_mem _ ?_) fun operands => ?_
      · simpa [GridKernel.Expr.listNodes] using member
      · refine combine_takes strict operator applied ?_ _
        rw [exec_operand, exec_operand]
        exact operands
    rw [pres] at runs
    exact runs

end GridKernel.Target
