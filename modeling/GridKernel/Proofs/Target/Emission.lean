import GridKernel.Proofs.Target.Kinds
import GridKernel.Proofs.Target.Meaning
import GridKernel.Proofs.Target.Temporaries

/-!
# What translations emit

`Formed` puts together what is asked of expressions that run first and of values after them: they
use temporaries properly, and they are well typed. `Emission` says something of all that a
translation can give, in terms of the numbers of temporaries before and after it and of the types
that the temporaries of the whole function have in the end.
-/

namespace GridKernel.Target

open Option Expr

/-! ## Expressions that belong together -/

structure Formed (p : Program) (env : ScopeFrame) (types : Temps) (lo hi : Nat)
    (pre values : List Expr) (kinds : List Kind) : Prop where
  tidy : Tidy lo hi pre values
  first : ∀ e ∈ pre, e.HasKind p types env
  kinds : Expr.kinds? p types env values = some kinds

section

variable {types : Temps} {e : Expr}

theorem Expr.kinds?_cons (first : e.kind? p types env = some k)
    (others : Expr.kinds? p types env es = some ks) :
    Expr.kinds? p types env (e :: es) = some (k :: ks) := by
  rw [Expr.kinds?, first, others]
  rfl

theorem Expr.kinds?_single (h : e.kind? p types env = some k) :
    Expr.kinds? p types env [e] = some [k] :=
  kinds?_cons h rfl

theorem Expr.kind?_of_cons (h : Expr.kinds? p types env (e :: es) = some (k :: ks)) :
    e.kind? p types env = some k ∧ Expr.kinds? p types env es = some ks := by
  obtain ⟨k₁, first, h⟩ := bind_eq_some_iff.mp h
  obtain ⟨ks₁, others, same⟩ := map_eq_some_iff.mp h
  cases same
  exact ⟨first, others⟩

theorem Expr.kind?_of_single (h : Expr.kinds? p types env [e] = some [k]) :
    e.kind? p types env = some k :=
  (kind?_of_cons h).1

theorem Expr.kinds?_append (first : Expr.kinds? p types env es = some ks)
    (second : Expr.kinds? p types env es' = some ks') :
    Expr.kinds? p types env (es ++ es') = some (ks ++ ks') := by
  induction es generalizing ks with
  | nil =>
    cases first
    exact second
  | cons e rest ih =>
    obtain ⟨k, own, first⟩ := bind_eq_some_iff.mp first
    obtain ⟨others, given, rfl⟩ := map_eq_some_iff.mp first
    exact kinds?_cons own (ih given)

theorem Expr.length_of_kinds? (h : Expr.kinds? p types env es = some ks) :
    es.length = ks.length := by
  induction es generalizing ks with
  | nil =>
    cases h
    rfl
  | cons e rest ih =>
    obtain ⟨k, -, h⟩ := bind_eq_some_iff.mp h
    obtain ⟨others, given, rfl⟩ := map_eq_some_iff.mp h
    exact congrArg Nat.succ (ih given)

theorem Expr.each_of_kinds? (h : Expr.kinds? p types env es = some ks) :
    ∀ e ∈ es, e.HasKind p types env := by
  induction es generalizing ks with
  | nil => exact List.forall_mem_nil _
  | cons e rest ih =>
    obtain ⟨k, own, h⟩ := bind_eq_some_iff.mp h
    obtain ⟨others, given, -⟩ := map_eq_some_iff.mp h
    exact List.forall_mem_cons.mpr ⟨⟨k, own⟩, ih given⟩

/-- Expressions that are all well typed have types together. -/
theorem Expr.kinds?_of_each (h : ∀ e ∈ es, e.HasKind p types env) :
    ∃ ks, Expr.kinds? p types env es = some ks := by
  induction es with
  | nil => exact ⟨[], rfl⟩
  | cons e rest ih =>
    obtain ⟨⟨k, first⟩, others⟩ := List.forall_mem_cons.mp h
    obtain ⟨ks, given⟩ := ih others
    exact ⟨k :: ks, kinds?_cons first given⟩

theorem Expr.kind?_operand (simple : Bool) :
    (if simple then e else .paren e).kind? p types env = e.kind? p types env := by
  cases simple <;> rfl

theorem Expr.kind?_keep (declared : types[n]? = some t)
    (h : e.kind? p types env = some (.scalar t)) :
    (Expr.assign (.temp n) e).kind? p types env = some (.scalar t) := by
  simp [Expr.kind?, declared, h, assignKind?]

theorem Expr.kind?_temp (declared : types[n]? = some t) :
    (Expr.temp n).kind? p types env = some (.scalar t) := by
  simp [Expr.kind?, declared]

namespace Formed

theorem kind (h : Formed p env types lo hi pre [e] [k]) : e.kind? p types env = some k :=
  kind?_of_single h.kinds

theorem single (tidy : Tidy lo hi pre [e]) (first : ∀ e ∈ pre, e.HasKind p types env)
    (kind : e.kind? p types env = some k) : Formed p env types lo hi pre [e] [k] where
  tidy := tidy
  first := first
  kinds := kinds?_single kind

theorem nil (n) : Formed p env types n n [] [] [] where
  tidy := .nil n
  first _ member := nomatch member
  kinds := rfl

theorem append (h : Formed p env types lo mid pre values ks)
    (h' : Formed p env types mid hi pre' values' ks') :
    Formed p env types lo hi (pre ++ pre') (values ++ values') (ks ++ ks') where
  tidy := h.tidy.append h'.tidy
  first := List.forall_mem_append.mpr ⟨h.first, h'.first⟩
  kinds := kinds?_append h.kinds h'.kinds

/-- All values become one expression. -/
theorem join (h : Formed p env types lo hi pre values ks) (joins : e.Joins values)
    (kind : e.kind? p types env = some k) : Formed p env types lo hi pre [e] [k] := by
  have parts : Tidy lo hi pre (values ++ []) := by rw [List.append_nil]; exact h.tidy
  exact single (parts.join joins) h.first kind

theorem leaf (n) (joins : e.Joins []) (kind : e.kind? p types env = some k) :
    Formed p env types n n [] [e] [k] :=
  (nil n).join joins kind

/-- A value that evaluates nothing stands before the others. -/
theorem after_leaf (h : Formed p env types lo hi pre values ks) (joins : e.Joins [])
    (kind : e.kind? p types env = some k) :
    Formed p env types lo hi pre (e :: values) (k :: ks) :=
  (leaf lo joins kind).append h

theorem operand {em : Emitted} (h : Formed p env types lo hi em.pre [em.value] [k]) :
    Formed p env types lo hi em.pre [em.operand] [k] :=
  single h.tidy.operand h.first ((kind?_operand em.simple).trans h.kind)

theorem keep (h : Formed p env types lo hi pre [e] [.scalar t]) (declared : types[hi]? = some t) :
    Formed p env types lo (hi + 1) (pre ++ [.assign (.temp hi) e]) [.temp hi] [.scalar t] where
  tidy := h.tidy.keep
  first := List.forall_mem_append.mpr
    ⟨h.first, List.forall_mem_singleton.mpr ⟨_, kind?_keep declared h.kind⟩⟩
  kinds := kinds?_single (kind?_temp declared)

/-- Everything becomes one expression. -/
theorem inline {em : Emitted} (h : Formed p env types lo hi em.pre [em.value] [k]) :
    Formed p env types lo hi [] [em.inline] [k] := by
  obtain ⟨pre, value, simple⟩ := em
  cases pre with
  | nil => exact h
  | cons e rest =>
    obtain ⟨ks, before⟩ := kinds?_of_each h.first
    have joined : (Expr.comma (e :: rest) value).kind? p types env = some k := by
      rw [Expr.kind?, before]
      exact h.kind
    exact single h.tidy.inline (List.forall_mem_nil _) joined

theorem inlineOperand {em : Emitted} (h : Formed p env types lo hi em.pre [em.value] [k]) :
    Formed p env types lo hi [] [em.inlineOperand] [k] := by
  obtain ⟨pre, value, simple⟩ := em
  cases pre with
  | nil => exact h.operand
  | cons e rest => exact h.inline

end Formed

end

/-! ## Translations -/

/-- The translation only adds temporaries; what it gives is good for the numbers of temporaries
before and after it, whatever temporaries come after them. -/
def Emission {α : Type} (good : Nat → Nat → Temps → α → Prop) (x : Emit α) : Prop :=
  ∀ temps a temps', x temps = .ok (a, temps') →
    temps <+: temps' ∧ ∀ types, temps' <+: types → good temps.length temps'.length types a

namespace Emission

variable {α β : Type}

theorem ret (h : ∀ n types, good n n types a) : Emission good (pure a) := by
  intro temps a' temps' ended
  cases ended
  exact ⟨List.prefix_rfl, fun types _ => h _ _⟩

/-- The next step may use what is known of the first whatever temporaries there are. -/
theorem andThenWith (h : Emission good x)
    (next : ∀ a lo mid types, good lo mid types a → Emission
      (fun mid hi types b => ∀ lo, good lo mid types a → good' lo hi types b) (k a)) :
    Emission good' (x >>= k) := by
  intro temps b temps' ended
  obtain ⟨⟨a, temps₁⟩, first, later⟩ := Outcome.bind_eq_ok.mp ended
  obtain ⟨grows, here⟩ := h _ _ _ first
  obtain ⟨grows', there⟩ := next a _ _ _ (here temps₁ List.prefix_rfl) _ _ _ later
  exact ⟨grows.trans grows', fun types inside =>
    there types inside _ (here types (grows'.trans inside))⟩

theorem andThen (h : Emission good x)
    (next : ∀ a, Emission (fun mid hi types b => ∀ lo, good lo mid types a → good' lo hi types b)
      (k a)) :
    Emission good' (x >>= k) :=
  h.andThenWith fun a _ _ _ _ => next a

theorem mono (h : Emission good x)
    (weaker : ∀ lo hi types a, good lo hi types a → good'' lo hi types a) : Emission good'' x := by
  intro temps a temps' ended
  obtain ⟨grows, here⟩ := h _ _ _ ended
  exact ⟨grows, fun types inside => weaker _ _ _ _ (here types inside)⟩

theorem and (h : Emission good x) (h' : Emission good'' x) :
    Emission (fun lo hi types a => good lo hi types a ∧ good'' lo hi types a) x := by
  intro temps a temps' ended
  obtain ⟨grows, here⟩ := h _ _ _ ended
  obtain ⟨-, also⟩ := h' _ _ _ ended
  exact ⟨grows, fun types inside => ⟨here types inside, also types inside⟩⟩

theorem fresh (type) :
    Emission (fun lo hi types e => hi = lo + 1 ∧ e = .temp lo ∧ types[lo]? = some type)
      (Target.fresh type) := by
  intro temps a temps' ended
  cases ended
  refine ⟨List.prefix_append temps [type], ?_⟩
  rintro types ⟨rest, rfl⟩
  exact ⟨by simp, rfl, by simp⟩

end Emission

end GridKernel.Target
