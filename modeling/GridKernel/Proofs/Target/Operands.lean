import GridKernel.Proofs.Eval.Frame
import GridKernel.Proofs.Lang.Parts
import GridKernel.Proofs.Target.Runs

/-!
# Translated operands

Operands are translated from left to right. Where one of them has effects, each but the last is kept
in a temporary, unless it is a literal. Then, in whatever order the operands are evaluated, they
yield what evaluating them from left to right yields.
-/

namespace GridKernel.Target

open List
open Eval (Context Machine Holds)
open Typing (typeOf valueType check)

/-! ## Translations -/

section

variable {α β : Type}

/-- A translation goes on where the first part of it ended. -/
theorem emit_bind {x : Emit α} {f : α → Emit β} {a : α} {temps temps₁ : Temps}
    (h : x temps = .ok (a, temps₁)) : (x >>= f) temps = f a temps₁ := by
  change (x temps >>= fun p => f p.1 p.2) = _
  rw [h]
  rfl

theorem typed_eq (h : r = .ok a) (temps) : typed r temps = .ok (a, temps) := by
  subst h
  rfl

end

/-- The expression is translated, with the temporaries before and after it. -/
structure Rendered (c : Context) (s : Scope) (e : GridKernel.Expr) (t : ScalarType)
    (temps : Temps) (em : Emitted) (temps' : Temps) : Prop where
  type : typeOf c.descriptor s e = .ok (some t)
  translation : expr c.descriptor s e temps = .ok (em, temps')
  grows : temps <+: temps'
  plain : e.hasEffects = false → em.pre = [] ∧ temps' = temps
  runs : ∀ {types n steps callers m v m'}, temps' <+: types → n ≤ steps →
    Holds c s.names callers m → Eval.eval c n e m = .ok v m' →
    ∀ T, Runs c steps types em e.nodes temps.length temps'.length m T v m'

/-- The expression has a translation that means the same wherever it has a type. -/
def Faithful (c : Context) (s : Scope) (e : GridKernel.Expr) : Prop :=
  ∀ {t}, typeOf c.descriptor s e = .ok (some t) →
    ∀ temps, ∃ em temps', Rendered c s e t temps em temps'

/-- The translation of an operand and the temporaries after it, if it is kept in one. -/
def hoisted (kept : Bool) (t : ScalarType) (em : Emitted) (temps : Temps) : Emitted × Temps :=
  if kept then
    (⟨em.pre ++ [.assign (.temp temps.length) em.operand], .temp temps.length, true⟩, temps ++ [t])
  else (em, temps)

variable {c : Context} {s : Scope} {e : GridKernel.Expr} {t : ScalarType} {temps temps' : Temps}
  {em : Emitted}

/-- Evaluation takes a step, so those with a step tell what a translation does. -/
theorem Rendered.of_steps (type : typeOf c.descriptor s e = .ok (some t))
    (translation : expr c.descriptor s e temps = .ok (em, temps')) (grows : temps <+: temps')
    (plain : e.hasEffects = false → em.pre = [] ∧ temps' = temps)
    (runs : ∀ {types n steps callers m v m'}, temps' <+: types → n ≤ steps →
      Holds c s.names callers m → Eval.eval c (n + 1) e m = .ok v m' →
      ∀ T, Runs c steps types em e.nodes temps.length temps'.length m T v m') :
    Rendered c s e t temps em temps' := by
  refine ⟨type, translation, grows, plain, ?_⟩
  intro types n steps callers m v m' inside enough holds ended
  cases n with
  | zero => cases ended
  | succ n => exact runs inside (Nat.le_of_succ_le enough) holds ended

theorem Rendered.keep (h : Rendered c s e t temps em temps') (kept) :
    Target.keep c.descriptor s kept e (expr c.descriptor s e) temps =
      .ok (hoisted kept t em temps') := by
  unfold Target.keep
  rw [emit_bind h.translation]
  cases kept with
  | false => rfl
  | true =>
    have valued := Typing.valueType_eq_ok.mpr h.type
    simp only [if_true]
    rw [emit_bind (typed_eq valued temps')]
    rfl

/-- Operands laid out from left to right, with their translations and the temporaries before and
after them. -/
inductive Laid (c : Context) (s : Scope) (hoist : Bool) :
    List GridKernel.Expr → Temps → List Emitted → Temps → Prop
  | nil {temps : Temps} : Laid c s hoist [] temps [] temps
  | last {e : GridKernel.Expr} {t : ScalarType} {temps temps' : Temps} {em : Emitted}
      (h : Rendered c s e t temps em temps') : Laid c s hoist [e] temps [em] temps'
  | cons {e next : GridKernel.Expr} {t : ScalarType} {rest : List GridKernel.Expr}
      {temps temps₁ temps' : Temps} {em : Emitted} {ems : List Emitted}
      (h : Rendered c s e t temps em temps₁)
      (others : Laid c s hoist (next :: rest)
        (hoisted (hoist && !e.isLiteral) t em temps₁).2 ems temps') :
      Laid c s hoist (e :: next :: rest) temps
        ((hoisted (hoist && !e.isLiteral) t em temps₁).1 :: ems) temps'

variable {es : List GridKernel.Expr} {ems : List Emitted}

theorem Laid.exists_of_faithful (faithful : ∀ e ∈ es, Faithful c s e)
    (types : ∀ e ∈ es, ∃ t, typeOf c.descriptor s e = .ok (some t)) (hoist temps) :
    ∃ ems temps', Laid c s hoist es temps ems temps' := by
  induction es generalizing temps with
  | nil => exact ⟨[], temps, .nil⟩
  | cons e rest ih =>
    obtain ⟨t, type⟩ := types e (.head _)
    obtain ⟨em, temps₁, rendered⟩ := faithful e (.head _) type temps
    cases rest with
    | nil => exact ⟨[em], temps₁, .last rendered⟩
    | cons next rest =>
      obtain ⟨ems, temps', others⟩ := ih
        (fun e' member => faithful e' (.tail e member))
        (fun e' member => types e' (.tail e member))
        (hoisted (hoist && !e.isLiteral) t em temps₁).2
      exact ⟨_, temps', .cons rendered others⟩

theorem Laid.inOrder (h : Laid c s hoist es temps ems temps') :
    Target.inOrder c.descriptor s hoist (operands c.descriptor s es) temps =
      .ok ((ems.flatMap Emitted.pre, ems.map Emitted.value), temps') := by
  induction h with
  | nil => rfl
  | @last e t temps temps' em rendered =>
    change (expr c.descriptor s e >>= _) temps = _
    rw [emit_bind rendered.translation, flatMap_singleton]
    rfl
  | @cons e next t rest temps temps₁ temps' em ems rendered others ih =>
    change (Target.keep c.descriptor s _ e (expr c.descriptor s e) >>= _) temps = _
    exact (emit_bind (rendered.keep _)).trans (emit_bind ih)

theorem hoisted_grows (kept t em temps) : temps <+: (hoisted kept t em temps).2 := by
  cases kept with
  | false => exact prefix_rfl
  | true => exact prefix_append temps [t]

theorem Laid.grows (h : Laid c s hoist es temps ems temps') : temps <+: temps' := by
  induction h with
  | nil => exact prefix_rfl
  | last rendered => exact rendered.grows
  | cons rendered _ ih => exact (rendered.grows.trans (hoisted_grows _ _ _ _)).trans ih

theorem Laid.length_eq (h : Laid c s hoist es temps ems temps') : ems.length = es.length := by
  induction h with
  | nil | last => rfl
  | cons _ _ ih => exact congrArg Nat.succ ih

/-! ## Operands without effects -/

/-- What an expression without effects is made of assigns nothing. -/
theorem isAssigned_of_plain {st : Storage} {node : GridKernel.Expr} (plain : e.hasEffects = false)
    (member : node ∈ e.nodes) : st.isAssigned node = false := by
  have own := Expr.nodes_listed.forall_mem Expr.hasEffects_parts plain node member
  cases node with
  | assign target op value | step target op before => cases own
  | _ => rfl

variable {n : Nat}

theorem not_reaches_of_plain (plain : e.hasEffects = false) : ¬Reaches e.nodes n n st := by
  rintro (⟨node, member, assigned⟩ | ⟨k, -, above, below⟩)
  · rw [isAssigned_of_plain plain member] at assigned
    cases assigned
  · omega

/-! ## Operands with their values -/

/-- Evaluating the expressions one after the other yields the values. -/
inductive Chain (c : Context) (steps : Nat) :
    List GridKernel.Expr → Machine → List Value → Machine → Prop
  | nil {m : Machine} : Chain c steps [] m [] m
  | cons {n : Nat} {e : GridKernel.Expr} {es : List GridKernel.Expr} {m m₁ m' : Machine}
      {v : Value} {vs : List Value} (enough : n ≤ steps) (first : Eval.eval c n e m = .ok v m₁)
      (others : Chain c steps es m₁ vs m') : Chain c steps (e :: es) m (v :: vs) m'

/-- Operands that give these values in any order, and then lead from one state to another. -/
def Operands (xs : List (Exec (Value × Accesses))) (vs : List Value) (m : Machine) (T : Held)
    (m' : Machine) (T' : Held) (reach : Storage → Prop) (bad : Prop) : Prop :=
  ∃ safe busy active, (∀ st, safe st → ¬busy st) ∧ (∀ st, busy st → reach st) ∧
    (active = false → m' = m ∧ T' = T) ∧
    Arranged (At m T) (At m' T') safe busy bad active xs vs

/-- What runs before operands leads to a state from which they give these values. They do not look
at temporaries that are allocated after them. -/
def Prepared (c : Context) (steps : Nat) (types : Temps) (ems : List Emitted)
    (nodes : List GridKernel.Expr) (lo hi : Nat) (m : Machine) (T : Held) (vs : List Value)
    (m' : Machine) : Prop :=
  ∃ mid T₁, m.memory.Keeps mid.memory ∧
    Leads c steps types (ems.flatMap Emitted.pre) nodes lo hi m T mid T₁ ∧
    ∀ T', Agree hi T₁ T' → ∃ T₂, Outside lo hi T' T₂ ∧
      Operands (execs c steps types (ems.map Emitted.value)) vs mid T' m' T₂ (Reaches nodes lo hi)
        (SelfIndexed nodes)

variable {steps : Nat} {types : Temps} {callers : Eval.Frame} {m m' : Machine}
  {vs : List Value}

variable {T : Held}

theorem Operands.unsequenced (h : Operands xs vs m T m' T' reach bad) :
    Takes (At m T) (Target.unsequenced xs) (Busy reach vs) (At m' T') bad := by
  obtain ⟨safe, busy, active, disjoint, sub, still, arranged⟩ := h
  have taken := arranged.unsequenced_takes (At.steady m T) (At.steady m' T') disjoint
  refine taken.imp (fun _ h => h) (fun r h => h.imp fun st h => sub st h.2) (fun s h => ?_)
    (fun h => h)
  cases active with
  | true => exact h
  | false =>
    obtain ⟨rfl, rfl⟩ := still rfl
    exact h

/-- A literal is translated to itself. -/
theorem Rendered.literal (h : Rendered c s e t temps em temps') (literal : e.isLiteral = true) :
    ∃ v, e = .literal v ∧ em.pre = [] ∧ em.value = .literal v ∧ temps' = temps := by
  cases e with
  | literal v =>
    cases h.translation
    exact ⟨v, rfl, rfl, rfl, rfl⟩
  | _ => cases literal

/-- The literal yields itself and changes nothing. -/
theorem eval_literal (h : Eval.eval c n (.literal v) m = .ok w m') : w = v ∧ m' = m := by
  cases n with
  | zero => cases h
  | succ n =>
    cases h
    exact ⟨rfl, rfl⟩

theorem hoisted_literal (hoist) (literal : e.isLiteral = true) (t em temps) :
    hoisted (hoist && !e.isLiteral) t em temps = (em, temps) := by
  rw [literal, Bool.not_true, Bool.and_false]
  rfl

/-- Literals are passive. -/
theorem Laid.literals (laid : Laid c s hoist es temps ems temps')
    (literal : ∀ e ∈ es, e.isLiteral = true) (chain : Chain c steps es m vs m') :
    ems.flatMap Emitted.pre = [] ∧ temps' = temps ∧ m' = m ∧
      ∀ {types B A safe busy bad}, Arranged B A safe busy bad false
        (execs c steps types (ems.map Emitted.value)) vs := by
  induction laid generalizing m vs with
  | nil =>
    cases chain
    exact ⟨rfl, rfl, rfl, .nil⟩
  | last rendered =>
    obtain ⟨v, rfl, pre, value, rfl⟩ := rendered.literal (literal _ (.head _))
    cases chain with
    | cons _ first others =>
      cases others
      obtain ⟨rfl, rfl⟩ := eval_literal first
      refine ⟨by rw [flatMap_singleton, pre], rfl, rfl, ?_⟩
      intro types B A safe busy bad
      rw [map_singleton, value]
      exact .passive (literal_takes B _) (literal_takes A _) .nil
  | cons rendered others ih =>
    rw [hoisted_literal hoist (literal _ mem_cons_self)] at ih ⊢
    obtain ⟨v, rfl, pre, value, rfl⟩ := rendered.literal (literal _ (.head _))
    cases chain with
    | cons _ first rest =>
      obtain ⟨rfl, rfl⟩ := eval_literal first
      obtain ⟨pres, same, machine, arranged⟩ :=
        ih (fun e member => literal e (.tail _ member)) rest
      refine ⟨by rw [flatMap_cons, pre, pres]; rfl, same, machine, ?_⟩
      intro types B A safe busy bad
      rw [map_cons, value]
      exact .passive (literal_takes B _) (literal_takes A _) arranged

/-- Operands without effects need nothing before them. -/
theorem Laid.no_temps (laid : Laid c s false es temps ems temps')
    (plain : ∀ e ∈ es, e.hasEffects = false) :
    ems.flatMap Emitted.pre = [] ∧ temps' = temps := by
  induction laid with
  | nil => exact ⟨rfl, rfl⟩
  | last rendered =>
    obtain ⟨pre, rfl⟩ := rendered.plain (plain _ (.head _))
    exact ⟨by rw [flatMap_singleton, pre], rfl⟩
  | cons rendered others ih =>
    obtain ⟨pre, rfl⟩ := rendered.plain (plain _ (.head _))
    obtain ⟨pres, rfl⟩ := ih fun e member => plain e (.tail _ member)
    refine ⟨?_, rfl⟩
    rw [flatMap_cons, pres]
    exact congrArg (· ++ []) pre

theorem Rendered.passive (h : Rendered c s e t temps em temps') (plain : e.hasEffects = false)
    (inside : temps' <+: types) (enough : n ≤ steps) (holds : Holds c s.names callers m)
    (ended : Eval.eval c n e m = .ok v m') (T) :
    Takes (At m T) (exec c steps types em.value) (Quiet (fun _ => True) v) (At m T)
      (SelfIndexed e.nodes) := by
  obtain ⟨pre, rfl⟩ := h.plain plain
  obtain rfl := Eval.plain_state plain ended
  refine ((h.runs inside enough holds ended T).alone pre).mono fun r busy => ?_
  exact busy.quiet fun st => not_reaches_of_plain plain

/-- Operands without effects are passive. -/
theorem Laid.passive (laid : Laid c s false es temps ems temps')
    (plain : ∀ e ∈ es, e.hasEffects = false) (inside : temps' <+: types)
    (holds : Holds c s.names callers m) (chain : Chain c steps es m vs m') (T) :
    m' = m ∧ Arranged (At m T) (At m T) (fun _ => True) (fun _ => False)
      (SelfIndexed (GridKernel.Expr.listNodes es)) false
      (execs c steps types (ems.map Emitted.value)) vs := by
  induction laid generalizing vs with
  | nil =>
    cases chain
    exact ⟨rfl, .nil⟩
  | last rendered =>
    have effects := plain _ (.head _)
    cases chain with
    | cons enough first others =>
      cases others
      have quiet := (rendered.passive effects inside enough holds first T).weaken fun h =>
        h.mono fun _ => mem_append_left []
      exact ⟨Eval.plain_state effects first, .passive quiet quiet .nil⟩
  | @cons e next t rest temps temps₁ temps' em ems rendered others ih =>
    have effects := plain _ (.head _)
    cases chain with
    | cons enough first later =>
      have quiet := (rendered.passive effects (others.grows.trans inside) enough holds first
        T).weaken fun h => h.mono fun _ =>
          mem_append_left (GridKernel.Expr.listNodes (next :: rest))
      obtain rfl := Eval.plain_state effects first
      obtain ⟨machine, arranged⟩ :=
        ih (fun e member => plain e (.tail _ member)) inside later
      refine ⟨machine, .passive quiet quiet (arranged.imp (fun _ h => h) fun h => ?_)⟩
      exact h.mono fun _ => mem_append_right _

variable {nodes : List GridKernel.Expr}

theorem Prepared.mono (h : Prepared c steps types ems nodes lo hi m T vs m')
    (sub : ∀ e ∈ nodes, e ∈ nodes') : Prepared c steps types ems nodes' lo hi m T vs m' := by
  obtain ⟨mid, T₁, shape, before, given⟩ := h
  refine ⟨mid, T₁, shape, before.mono sub, fun T' agree => ?_⟩
  obtain ⟨T₂, outside, safe, busy, active, disjoint, reach, still, arranged⟩ := given T' agree
  refine ⟨T₂, outside, safe, busy, active, disjoint, ?_, still,
    arranged.imp (fun _ h => h) (·.mono sub)⟩
  exact fun st h => (reach st h).mono sub

/-- What was allocated has its type wherever more is allocated. -/
theorem type_of_front (inside : temps ++ [t] <+: types) : types[temps.length]? = some t := by
  obtain ⟨more, rfl⟩ := inside
  rw [append_assoc, getElem?_append_right (Nat.le_refl _), Nat.sub_self]
  rfl

/-- What runs before operands leads to a state from which one of them touches only temporaries from
`b` on, and the others read only those below. -/
def Staged (c : Context) (steps : Nat) (types : Temps) (ems : List Emitted)
    (nodes : List GridKernel.Expr) (lo hi : Nat) (m : Machine) (T : Held) (vs : List Value)
    (m' : Machine) : Prop :=
  ∃ b mid T₁, lo ≤ b ∧ m.memory.Keeps mid.memory ∧
    Leads c steps types (ems.flatMap Emitted.pre) nodes lo hi m T mid T₁ ∧
    ∀ T', Agree hi T₁ T' → ∃ T₂ active, Outside b hi T' T₂ ∧
      (active = false → m' = mid ∧ T₂ = T') ∧
      Arranged (At mid T') (At m' T₂) (Below b) (Reaches nodes b hi)
        (SelfIndexed nodes) active (execs c steps types (ems.map Emitted.value)) vs

namespace Staged

theorem prepared (h : Staged c steps types ems nodes lo hi m T vs m') :
    Prepared c steps types ems nodes lo hi m T vs m' := by
  obtain ⟨b, mid, T₁, low, shape, before, given⟩ := h
  refine ⟨mid, T₁, shape, before, fun T' agree => ?_⟩
  obtain ⟨T₂, active, outside, still, arranged⟩ := given T' agree
  refine ⟨T₂, outside.wider low (Nat.le_refl hi), _, _, active, ?_, ?_, still, arranged⟩
  · rintro st ⟨n, below, rfl⟩
    exact Reaches.not_temp (.inl below)
  · exact fun st h => h.mono (fun _ found => found) low

theorem mono (h : Staged c steps types ems nodes lo hi m T vs m')
    (sub : ∀ e ∈ nodes, e ∈ nodes') : Staged c steps types ems nodes' lo hi m T vs m' := by
  obtain ⟨b, mid, T₁, low, shape, before, given⟩ := h
  refine ⟨b, mid, T₁, low, shape, before.mono sub,
    fun T' agree => ?_⟩
  obtain ⟨T₂, active, outside, still, arranged⟩ := given T' agree
  refine ⟨T₂, active, outside, still, arranged.imp ?_ (·.mono sub)⟩
  exact fun st h => h.mono sub

/-- One operand before literals. -/
theorem before_literals (h : Runs c steps types em nodes lo hi m T v m')
    (pres : ems.flatMap Emitted.pre = [])
    (others : ∀ {B A safe busy bad}, Arranged B A safe busy bad false
      (execs c steps types (ems.map Emitted.value)) vs) :
    Staged c steps types (em :: ems) nodes lo hi m T (v :: vs) m' := by
  obtain ⟨mid, T₁, shape, before, yields⟩ := h
  refine ⟨lo, mid, T₁, Nat.le_refl lo, shape, ?_, fun T' agree => ?_⟩
  · rw [flatMap_cons, pres, append_nil]
    exact before
  · obtain ⟨T₂, outside, taken⟩ := yields T' agree
    exact ⟨T₂, true, outside, nofun, .active taken others⟩

/-- A literal before other operands. -/
theorem literal (h : Staged c steps types ems nodes lo hi m T vs m') (pre : em.pre = [])
    (value : em.value = .literal v) :
    Staged c steps types (em :: ems) nodes lo hi m T (v :: vs) m' := by
  obtain ⟨b, mid, T₁, low, shape, before, given⟩ := h
  refine ⟨b, mid, T₁, low, shape, ?_, fun T' agree => ?_⟩
  · rw [flatMap_cons, pre]
    exact before
  · obtain ⟨T₂, active, outside, still, arranged⟩ := given T' agree
    refine ⟨T₂, active, outside, still, ?_⟩
    rw [map_cons, value]
    exact .passive (literal_takes _ v) (literal_takes _ v) arranged

/-- An operand kept in the temporary `n` before other operands. -/
theorem kept (stored : Leads c steps types pre nodes lo (n + 1) m T m₁ T₀)
    (moves : m.memory.Keeps m₁.memory) (held : T₀ n = some v)
    (h : Staged c steps types ems nodes (n + 1) hi m₁ T₀ vs m') (above : lo ≤ n) (below : n < hi) :
    Staged c steps types (⟨pre, .temp n, simple⟩ :: ems) nodes lo hi m T (v :: vs) m' := by
  obtain ⟨b, mid, T₁, low, shape, before, given⟩ := h
  have held₁ : T₁ n = some v := (before.2 n (.inl (Nat.lt_succ_self n))).trans held
  refine ⟨b, mid, T₁, by omega, moves.trans shape, ?_, fun T' agree => ?_⟩
  · rw [flatMap_cons]
    exact (stored.mono (fun _ found => found) (Nat.le_refl lo) below).append
      (before.mono (fun _ found => found) (Nat.le_succ_of_le above))
  · obtain ⟨T₂, active, outside, still, arranged⟩ := given T' agree
    have held' : T' n = some v := (agree n below).trans held₁
    have held₂ : T₂ n = some v := (outside n (.inl low)).trans held'
    exact ⟨T₂, active, outside, still,
      .passive (temp_takes held' ⟨n, low, rfl⟩) (temp_takes held₂ ⟨n, low, rfl⟩) arranged⟩

end Staged

/-- Operands of which each but the last is kept in a temporary, or all but one are literals. -/
theorem Laid.staged (checked : check c.descriptor = .ok ())
    (laid : Laid c s hoist es temps ems temps')
    (apart : hoist = true ∨ (es.filter fun e => !e.isLiteral).length < 2)
    (inside : temps' <+: types) (holds : Holds c s.names callers m)
    (chain : Chain c steps es m vs m') (T) :
    Staged c steps types ems (GridKernel.Expr.listNodes es) temps.length temps'.length m T vs
      m' := by
  induction laid generalizing m vs T with
  | nil =>
    cases chain
    exact ⟨_, _, T, Nat.le_refl _, .refl _, .nil _ T, fun T' _ =>
      ⟨T', false, .refl T', fun _ => ⟨rfl, rfl⟩, .nil⟩⟩
  | last rendered =>
    cases chain with
    | cons enough first others =>
      cases others
      have staged : Staged c steps types [_] _ _ _ _ T [_] _ :=
        .before_literals (rendered.runs inside enough holds first T) rfl .nil
      exact staged.mono fun _ => mem_append_left []
  | @cons e next t rest temps temps₁ temps' em ems rendered others ih =>
    have left : ∀ node ∈ e.nodes, node ∈ GridKernel.Expr.listNodes (e :: next :: rest) :=
      fun _ => mem_append_left _
    have right : ∀ node ∈ GridKernel.Expr.listNodes (next :: rest),
        node ∈ GridKernel.Expr.listNodes (e :: next :: rest) := fun _ => mem_append_right _
    cases chain with
    | @cons _ _ _ _ m₁ _ v vs enough first later =>
      by_cases literal : e.isLiteral = true
      · rw [hoisted_literal hoist literal] at ih ⊢
        obtain ⟨w, rfl, pre, value, rfl⟩ := rendered.literal literal
        obtain ⟨rfl, rfl⟩ := eval_literal first
        exact ((ih apart inside holds later T).mono right).literal pre value
      cases hoist with
      | false =>
        have single := apart.resolve_left nofun
        have alone : ∀ e' ∈ next :: rest, e'.isLiteral = true := by
          rw [filter_cons_of_pos (by simpa using literal), length_cons] at single
          have none : (next :: rest).filter (fun e => !e.isLiteral) = [] :=
            eq_nil_of_length_eq_zero (by omega)
          simpa using filter_eq_nil_iff.mp none
        obtain ⟨pres, rfl, rfl, arranged⟩ := others.literals alone later
        have runs := rendered.runs inside enough holds first T
        exact (Staged.before_literals runs pres arranged).mono left
      | true =>
        have kept : (true && !e.isLiteral) = true := by simpa using literal
        rw [kept] at ih others ⊢
        have inside₁ : temps₁ ++ [t] <+: types := others.grows.trans inside
        have above : temps.length ≤ temps₁.length := rendered.grows.length_le
        obtain ⟨typed, holds₁⟩ :=
          ((Eval.sound checked _).value rendered.type holds).of_ok first
        have runs := rendered.runs ((prefix_append _ _).trans inside₁) enough holds first T
        obtain ⟨T₀, held, stored⟩ := (runs.mono left).kept
          (exec_operand em) above (typed ▸ type_of_front inside₁)
        have allocated : (temps₁ ++ [t]).length = temps₁.length + 1 := length_append
        have below : (temps₁ ++ [t]).length ≤ temps'.length := others.grows.length_le
        have staged := (ih (.inl rfl) inside holds₁ later T₀).mono right
        change Staged c steps types ems _ (temps₁ ++ [t]).length temps'.length _ _ _ _ at staged
        rw [allocated] at below staged
        exact Staged.kept stored (Eval.eval_keeps first) held staged above below

/-- Operands as they are translated: in any order they yield what they yield from left to
right. -/
theorem Laid.prepared (checked : check c.descriptor = .ok ())
    (laid : Laid c s (hazard es) es temps ems temps') (inside : temps' <+: types)
    (holds : Holds c s.names callers m) (chain : Chain c steps es m vs m') (T) :
    Prepared c steps types ems (GridKernel.Expr.listNodes es) temps.length temps'.length m T vs
      m' := by
  cases hazardous : hazard es with
  | true =>
    rw [hazardous] at laid
    exact (laid.staged checked (.inl rfl) inside holds chain T).prepared
  | false =>
    rw [hazardous] at laid
    cases effects : es.any Expr.hasEffects with
    | true =>
      have single : (es.filter fun e => !e.isLiteral).length < 2 := by
        simpa [hazard, effects] using hazardous
      exact (laid.staged checked (.inr single) inside holds chain T).prepared
    | false =>
      have plain : ∀ e ∈ es, e.hasEffects = false := by simpa using effects
      obtain ⟨pres, rfl⟩ := laid.no_temps plain
      refine ⟨m, T, .refl _, pres ▸ .nil m T, fun T' _ => ?_⟩
      obtain ⟨rfl, arranged⟩ := laid.passive plain inside holds chain T'
      exact ⟨T', .refl T', _, _, false, fun _ _ => False.elim, fun _ => False.elim,
        fun _ => ⟨rfl, rfl⟩, arranged⟩

/-- Two passive operands. -/
theorem Operands.passive (first : Takes (At m T) x (Quiet safe v) (At m T) bad)
    (second : Takes (At m T) y (Quiet safe' w) (At m T) bad) :
    Operands [x, y] [v, w] m T m T reach bad := by
  have quiet : Takes (At m T) x (Quiet (fun _ => True) v) (At m T) bad :=
    first.mono fun _ h => h.imp fun _ _ => trivial
  have quiet' : Takes (At m T) y (Quiet (fun _ => True) w) (At m T) bad :=
    second.mono fun _ h => h.imp fun _ _ => trivial
  exact ⟨fun _ => True, fun _ => False, false, fun _ _ => id, fun _ => False.elim,
    fun _ => ⟨rfl, rfl⟩, .passive quiet quiet (.passive quiet' quiet' .nil)⟩

/-- Two operands. -/
theorem Operands.both (h : Operands [x, y] [v, w] m T m' T' reach bad) :
    Takes (At m T) (Target.both x y) (Busy reach (v, w)) (At m' T') bad := by
  obtain ⟨safe, busy, active, disjoint, sub, still, arranged⟩ := h
  cases arranged with
  | passive before after rest =>
    cases rest with
    | passive before' after' rest =>
      cases rest
      obtain ⟨rfl, rfl⟩ := still rfl
      exact (both_second (At.steady _ _) disjoint before after (before'.mono fun _ h =>
        h.toBusy)).mono fun _ h => h.imp sub
    | active acts rest =>
      exact (both_second (At.steady m T) disjoint before after acts).mono fun _ h => h.imp sub
  | active acts rest =>
    cases rest with
    | passive before after rest =>
      exact (both_first (At.steady m T) disjoint acts before after).mono fun _ h => h.imp sub

end GridKernel.Target
