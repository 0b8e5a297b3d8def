import GridKernel.Proofs.Target.Targets

/-!
# Assignments

The translation of assignments, compound assignments and increments. A place is found once, before
the value is evaluated. Where evaluating the value could disturb the place or what it holds, the
translation goes through temporaries.
-/

namespace GridKernel.Target

open List
open Eval (Context Machine Holds Location)
open Typing (typeOf valueType check)

variable {c : Context} {callers : Eval.Frame} {t : ScalarType} {value : GridKernel.Expr}
  {temps : Temps} {em : Emitted} {pre : List Expr} {target : Expr}

/-! ## Plain assignments -/

/-- The translation of an assignment and the temporaries after it; if there is a conflict the value
is kept first. -/
def stored (conflict : Bool) (t : ScalarType) (pre : List Expr) (target value : Expr)
    (temps : Temps) : Emitted × Temps :=
  if conflict then
    (⟨pre ++ [.assign (.temp temps.length) value], .assign target (.temp temps.length), false⟩,
      temps ++ [t])
  else (⟨pre, .assign target value, false⟩, temps)

theorem store_eq (type : typeOf c.descriptor s value = .ok (some t)) (conflict pre target e temps) :
    store c.descriptor s conflict value pre target e temps =
      .ok (stored conflict t pre target e temps) := by
  cases conflict with
  | false => rfl
  | true =>
    unfold store
    simp only [if_true]
    rw [emit_bind (typed_eq (Typing.valueType_eq_ok.mpr type) temps)]
    rfl

theorem stored_grows (conflict t pre target e temps) :
    temps <+: (stored conflict t pre target e temps).2 := by
  cases conflict with
  | false => exact prefix_rfl
  | true => exact prefix_append temps [t]

theorem assign_types (type : typeOf c.descriptor s (.assign p none value) = .ok (some t)) :
    Typing.placeType c.descriptor s p = .ok t ∧ typeOf c.descriptor s value = .ok (some t) := by
  obtain ⟨_, _, ⟨⟩, place, source, assigned⟩ := Typing.typeOf_assign type
  obtain rfl := Typing.assignType_plain assigned
  exact ⟨place, source⟩

/-- What evaluating an assignment says, in the terms of its translation. -/
theorem assign_parts (checked : check c.descriptor = .ok ())
    (type : typeOf c.descriptor s (.assign p none value) = .ok (some t))
    (holds : Holds c s.names callers m)
    (ended : Eval.eval c (n + 1) (.assign p none value) m = .ok v m') :
    ∃ l m₁ m₂, Eval.resolve c n p m = .ok l m₁ ∧ Holds c s.names callers m₁ ∧
      Eval.eval c n value m₁ = .ok v m₂ ∧ v.type = t ∧ Stores c l m₂ v v m' := by
  obtain ⟨place, source⟩ := assign_types type
  obtain ⟨l, m₁, resolved, rest⟩ := bind_ok ended
  obtain ⟨w, m₂, evaluated, rest⟩ := bind_ok rest
  obtain ⟨⟨⟩, m₃, written, rest⟩ := bind_ok rest
  cases rest
  obtain ⟨typed, holds₁⟩ := ((Eval.sound checked n).place place holds).of_ok resolved
  obtain ⟨rfl, holds₂⟩ := ((Eval.sound checked n).value source holds₁).of_ok evaluated
  exact ⟨l, m₁, m₂, resolved, holds₁, evaluated, rfl, holds₂, typed, v.cast_type, written⟩

theorem place_nodes_subset (p op value) : p.nodes ⊆ (GridKernel.Expr.assign p op value).nodes :=
  subset_cons_of_subset _ (subset_append_left _ _)

theorem value_nodes_subset (p op value) : value.nodes ⊆ (GridKernel.Expr.assign p op value).nodes :=
  subset_cons_of_subset _ (subset_append_right _ _)

/-- The storage of the place is touched by the assignment. -/
theorem reaches_target (place : (storageOf l).isOf p = true) :
    Reaches (GridKernel.Expr.assign p op value).nodes lo hi (storageOf l) :=
  .inl ⟨.assign p op value, mem_cons_self, place⟩

/-- An assignment to a settled target. -/
theorem Settled.assign
    (settled : Settled c steps types pre target p.nodes temps.length temps₁.length m T l m₁)
    (grows : temps <+: temps₁) (rendered : Rendered c s value v.type temps₁ em temps₂)
    (inside : (stored (assigns p value) v.type (pre ++ em.pre) target em.value temps₂).2 <+: types)
    (enough : n ≤ steps) (holds : Holds c s.names callers m₁) (keeps : m.memory.Keeps m₁.memory)
    (place : (storageOf l).isOf p = true) (evaluated : Eval.eval c n value m₁ = .ok v m₂)
    (stores : Stores c l m₂ v v m') :
    Runs c steps types (stored (assigns p value) v.type (pre ++ em.pre) target em.value temps₂).1
      (GridKernel.Expr.assign p none value).nodes temps.length
      (stored (assigns p value) v.type (pre ++ em.pre) target em.value temps₂).2.length m T v m' := by
  have left := place_nodes_subset p none value
  have right := value_nodes_subset p none value
  have low := grows.length_le
  have high := rendered.grows.length_le
  obtain ⟨T₁, before, finds⟩ := settled
  have runs := rendered.runs ((stored_grows _ _ _ _ _ _).trans inside) enough holds evaluated T₁
  cases conflict : assigns p value with
  | false =>
    obtain ⟨mid, T₂, shape, before', yields⟩ := runs
    refine ⟨mid, T₂, keeps.trans shape, (before.mono left (Nat.le_refl _) high).append
      (before'.mono right low), fun T' agree => ?_⟩
    obtain ⟨T₃, outside, valued⟩ := yields T' agree
    have start : Agree temps₁.length T₁ T' := before'.2.agree.trans (agree.mono high)
    refine ⟨T₃, outside.wider low (Nat.le_refl _), ?_⟩
    have free : ¬Reaches value.nodes temps₁.length temps₂.length (storageOf l) := fun reached => by
      rw [reached.assigns place] at conflict
      cases conflict
    refine (finds.assign ⟨shape, start⟩ ⟨Eval.eval_keeps evaluated, start.trans outside.agree⟩
      (fun _ => Below.not_reaches) (valued.weaken (·.mono right)) free stores).mono fun _ h => ?_
    refine h.imp fun st touched => ?_
    rcases touched with touched | rfl
    · exact touched.mono right low
    · exact reaches_target place
  | true =>
    rw [conflict] at inside
    obtain ⟨T₂, held, kept⟩ := runs.kept rfl high (type_of_front inside)
    have allocated : (temps₂ ++ [v.type]).length = temps₂.length + 1 := length_append
    change Runs c steps types ⟨pre ++ em.pre ++ [.assign (.temp temps₂.length) em.value],
      .assign target (.temp temps₂.length), false⟩ _ _ (temps₂ ++ [v.type]).length _ _ _ _
    rw [allocated, append_assoc]
    refine ⟨m₂, T₂, keeps.trans (Eval.eval_keeps evaluated),
      (before.mono left (Nat.le_refl _) (by omega)).append (kept.mono right low),
      fun T' agree => .still ?_⟩
    have held' : T' temps₂.length = some v := (agree _ (Nat.lt_succ_self _)).trans held
    have here : Beyond m₁ T₁ temps₁.length m₂ T' :=
      ⟨Eval.eval_keeps evaluated, kept.2.agree.trans (agree.mono (by omega))⟩
    exact finds.assign_passive here (temp_busy held') stores (reaches_target place)

/-- An assignment whose target is settled wherever its place can be resolved. -/
theorem rendered_assign (checked : check c.descriptor = .ok ()) (pre target)
    (type : typeOf c.descriptor s (.assign p none value) = .ok (some t)) (grows : temps <+: temps₁)
    (rendered : Rendered c s value t temps₁ em temps₂)
    (translation : expr c.descriptor s (.assign p none value) temps = .ok
      (stored (assigns p value) t (pre ++ em.pre) target em.value temps₂))
    (settles : Settles c s p temps pre target temps₁) :
    Rendered c s (.assign p none value) t temps
      (stored (assigns p value) t (pre ++ em.pre) target em.value temps₂).1
      (stored (assigns p value) t (pre ++ em.pre) target em.value temps₂).2 := by
  refine .of_steps type translation
    ((grows.trans rendered.grows).trans (stored_grows _ _ _ _ _ _)) nofun ?_
  intro types n steps callers m v m' inside enough holds ended T
  obtain ⟨l, m₁, m₂, resolved, holds₁, evaluated, rfl, stores⟩ :=
    assign_parts checked type holds ended
  have inside₁ := (rendered.grows.trans (stored_grows _ _ _ _ _ _)).trans inside
  exact (settles inside₁ enough holds resolved).assign grows rendered inside enough holds₁
    (Eval.resolve_keeps resolved) (isOf_of_resolve resolved) evaluated stores

theorem faithful_assign_var (checked : check c.descriptor = .ok ()) (h : Faithful c s value)
    (name) : Faithful c s (.assign (.var name) none value) := by
  intro t type temps
  obtain ⟨-, source⟩ := assign_types type
  obtain ⟨em, temps₁, rendered⟩ := h source temps
  exact ⟨_, _, rendered_assign checked [] (.var name) type prefix_rfl rendered
    ((emit_bind rendered.translation).trans (store_eq source _ _ _ _ _)) (settles_var name temps)⟩

theorem faithful_assign_field (checked : check c.descriptor = .ok ()) (h : Faithful c s value)
    (name) : Faithful c s (.assign (.field name) none value) := by
  intro t type temps
  obtain ⟨-, source⟩ := assign_types type
  obtain ⟨em, temps₁, rendered⟩ := h source temps
  exact ⟨_, _, rendered_assign checked [] (.member name) type prefix_rfl rendered
    ((emit_bind rendered.translation).trans (store_eq source _ _ _ _ _))
    (settles_field name temps)⟩

/-! ## Assignments to elements -/

section

/-- An expression without effects assigns nothing. -/
theorem assigns_of_plain (plain : e.hasEffects = false) (target) : assigns target e = false := by
  have some_storage : ∀ place : Place GridKernel.Expr, ∃ st : Storage, st.isOf place = true := by
    intro place
    cases place with
    | var name => exact ⟨.var name, beq_self_eq_true name⟩
    | field name => exact ⟨.field name, beq_self_eq_true name⟩
    | element array index => exact ⟨.element array 0, beq_self_eq_true array⟩
  have harmless : ∀ node ∈ e.nodes, ∀ place : Place GridKernel.Expr,
      (∀ st : Storage, st.isAssigned node = st.isOf place) → False := by
    intro node member place assigned
    obtain ⟨st, own⟩ := some_storage place
    rw [← assigned, isAssigned_of_plain plain member] at own
    cases own
  refine any_eq_false.mpr fun node member => ?_
  cases node with
  | assign place op value | step place op before =>
    exact (harmless _ member place fun _ => rfl).elim
  | _ => exact Bool.false_ne_true

/-- The translation of an assignment to an element, given those of its parts. -/
theorem assign_element_eq (array kept) (hoists : (hazard [index, value] && !index.isLiteral) = kept)
    (source : typeOf c.descriptor s value = .ok (some t))
    (position : Rendered c s index .int temps emI temps₁)
    (rendered : Rendered c s value t (hoisted kept .int emI temps₁).2 emV temps₂) :
    expr c.descriptor s (.assign (.element array index) none value) temps =
      .ok (stored (assigns (.element array index) value) t
        ((hoisted kept .int emI temps₁).1.pre ++ emV.pre)
        (.element array (hoisted kept .int emI temps₁).1.value) emV.value temps₂) := by
  subst hoists
  exact (emit_bind (position.keep _)).trans
    ((emit_bind rendered.translation).trans (store_eq source _ _ _ _ _))

/-- Neither the index nor the value has effects. -/
theorem rendered_assign_plain (checked : check c.descriptor = .ok ())
    (type : typeOf c.descriptor s (.assign (.element array index) none value) = .ok (some t))
    (plain : index.hasEffects = false) (plain₁ : value.hasEffects = false)
    (position : Rendered c s index .int temps emI temps)
    (rendered : Rendered c s value t temps emV temps) :
    Rendered c s (.assign (.element array index) none value) t temps
      ⟨[], .assign (.element array emI.value) emV.value, false⟩ temps := by
  have safe : hazard [index, value] = false := hazard_of_plain (by simp [plain, plain₁])
  refine .of_steps type ?_ prefix_rfl nofun ?_
  · have emits := assign_element_eq array false (by rw [safe]; rfl) rendered.type position
      rendered
    rw [assigns_of_plain plain₁, show (hoisted false .int emI temps).1 = emI from rfl,
      (position.plain plain).1, (rendered.plain plain₁).1] at emits
    exact emits
  · intro types n steps callers m v m' inside enough holds ended T
    obtain ⟨l, m₁, m₂, resolved, -, evaluated, rfl, stores⟩ :=
      assign_parts checked type holds ended
    obtain ⟨rfl, finds⟩ := finds_plain position plain inside enough holds resolved
    obtain rfl := Eval.plain_state plain₁ evaluated
    refine .direct fun T => .still ?_
    have valued := rendered.passive plain₁ inside enough holds evaluated T
    exact (finds.weaken (·.mono (place_nodes_subset (.element array index) none value))).assign_passive
      rfl ((valued.weaken (·.mono (value_nodes_subset _ _ _))).mono fun _ h => h.toBusy) stores
      (reaches_target (isOf_of_resolve resolved))

/-- Finding an element by an index that may do something. -/
theorem locate_element (taken : Takes (At m T) (exec c steps types e) (Busy busy v) (At m' T') bad)
    (sized : Eval.arraySize c array m' = .ok size m')
    (inBounds : Eval.checkIndex array v size m' = .ok i m') :
    Takes (At m T) (locate c steps types (.element array e)) (Busy busy (.element array i))
      (At m' T') bad := by
  rw [locate]
  refine taken.andThen ?_
  rintro ⟨_, acc⟩ ⟨rfl, within, pending⟩
  exact (elementAt_takes sized inBounds).eq_andThen (.ret ⟨rfl, within, pending⟩)

/-- The value is a literal: the index is not kept, and may disturb the element. -/
theorem rendered_assign_constant (checked : check c.descriptor = .ok ())
    (type : typeOf c.descriptor s (.assign (.element array index) none (.literal v)) = .ok (some t))
    (position : Rendered c s index .int temps emI temps₁) :
    Rendered c s (.assign (.element array index) none (.literal v)) t temps
      ⟨emI.pre, .assign (.element array emI.value) (.literal v), false⟩ temps₁ := by
  obtain ⟨place, source⟩ := assign_types type
  obtain ⟨em, temps₂, rendered⟩ := faithful_literal v source temps₁
  obtain ⟨w, ⟨⟩, pre, literal, rfl⟩ := rendered.literal rfl
  have safe := hazard_literal index v
  refine .of_steps type ?_ position.grows nofun ?_
  · have emits := assign_element_eq array false (by rw [safe]; rfl) source position rendered
    rw [assigns_of_plain rfl, show (hoisted false .int emI temps₂).1 = emI from rfl, pre, literal,
      append_nil] at emits
    exact emits
  · intro types n steps callers m u m' inside enough holds ended T
    obtain ⟨l, m₁, m₂, resolved, -, evaluated, rfl, stores⟩ :=
      assign_parts checked type holds ended
    obtain ⟨rfl, rfl⟩ := eval_literal evaluated
    have own := isOf_of_resolve resolved
    obtain ⟨n, rfl⟩ := steps_of_resolve resolved
    obtain ⟨i, size, k, rfl, evaluated, sized, inBounds⟩ := resolve_element resolved
    have left := place_nodes_subset (.element array index) none (.literal u)
    obtain ⟨mid, T₁, shape, before, yields⟩ :=
      position.runs inside (Nat.le_of_succ_le enough) holds evaluated T
    refine ⟨mid, T₁, shape, before.mono left, fun T' agree => ?_⟩
    obtain ⟨T₂, outside, taken⟩ := yields T' agree
    refine ⟨T₂, outside, ?_⟩
    rw [exec]
    refine (both_first (At.steady mid T') (fun _ => False.elim)
      (locate_element (taken.weaken (·.mono left)) sized (inBounds _)) (literal_takes _ u)
      (literal_takes _ u)).andThen ?_
    rintro ⟨_, acc⟩ ⟨rfl, within, pending⟩
    refine storeTo_takes (l := .element array k) stores (reaches_target own) ?_ ?_
      fun disturbed => ?_
    · exact fun st member => (within st member).mono left
    · exact fun st member => (pending st member).mono left
    · exact ⟨_, mem_cons_self, (pending _ disturbed).assigns own⟩

theorem faithful_assign_element (checked : check c.descriptor = .ok ()) (h : Faithful c s index)
    (h₁ : Faithful c s value) (array) :
    Faithful c s (.assign (.element array index) none value) := by
  intro t type temps
  obtain ⟨place, source⟩ := assign_types type
  obtain ⟨position, elements⟩ := Typing.placeType_element place
  obtain ⟨emI, temps₁, rendered₁⟩ := h position temps
  by_cases literal : index.isLiteral = true
  · obtain ⟨v, rfl, pre, literally, rfl⟩ := rendered₁.literal literal
    obtain ⟨em, temps₂, rendered⟩ := h₁ source temps₁
    have emits := assign_element_eq array false (Bool.and_false _) source rendered₁ rendered
    rw [show (hoisted false .int emI temps₁).1 = emI from rfl, pre, literally] at emits
    exact ⟨_, _, rendered_assign checked [] (.element array (.literal v)) type prefix_rfl
      rendered emits (settles_literal v elements _)⟩
  by_cases literal' : value.isLiteral = true
  · cases value with
    | literal v => exact ⟨_, _, rendered_assign_constant checked type rendered₁⟩
    | _ => cases literal'
  have count := hazard_pair literal literal'
  cases effects : (index.hasEffects || value.hasEffects) with
  | true =>
    obtain ⟨em, temps₂, rendered⟩ := h₁ source (temps₁ ++ [.int])
    have hoists : (hazard [index, value] && !index.isLiteral) = true := by
      simp [count, effects, literal]
    exact ⟨_, _, rendered_assign checked _ _ type
      (rendered₁.grows.trans (prefix_append _ _)) rendered
      (assign_element_eq array true hoists source rendered₁ rendered)
      (settles_kept checked rendered₁ elements)⟩
  | false =>
    obtain ⟨plain, plain₁⟩ := Bool.or_eq_false_iff.mp effects
    obtain ⟨-, rfl⟩ := rendered₁.plain plain
    obtain ⟨em, temps₂, rendered⟩ := h₁ source temps₁
    obtain ⟨-, rfl⟩ := rendered.plain plain₁
    exact ⟨_, _, rendered_assign_plain checked type plain plain₁ rendered₁ rendered⟩

end

end GridKernel.Target
