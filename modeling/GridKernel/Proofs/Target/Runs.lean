import GridKernel.Proofs.Target.Order
import GridKernel.Proofs.Typing.Soundness

/-!
# Runs of translated expressions

`Runs` states what a translated expression does: what runs before it and then its value take one
machine to another, whatever the schedule is, and touch only the temporaries that were allocated
for it. Here it is carried through the ways in which a translation is used: joined by commas, kept
in a temporary, or as an operand.
-/

namespace GridKernel.Target

open List
open Eval (Context Machine)

/-- The values of the temporaries. -/
abbrev Held := Nat → Option Value

/-- The machine and the temporaries of a state in which every local holds a value; its schedule is
free. -/
def At (m : Machine) (T : Held) (s : State) : Prop := s.machine = m ∧ s.temps = T ∧ s.unset = []

theorem At.steady (m T) : Steady (At m T) := fun _ _ h => h

theorem At.start (m T) : At m T { machine := m, temps := T } := ⟨rfl, rfl, rfl⟩

/-- The temporaries outside of a range are the same. -/
def Outside (lo hi : Nat) (T T' : Held) : Prop := ∀ n, n < lo ∨ hi ≤ n → T' n = T n

namespace Outside

variable {lo hi : Nat} {T T' : Held}

theorem refl (T) : Outside lo hi T T := fun _ _ => rfl

theorem trans (first : Outside lo hi T T') (second : Outside lo hi T' T'') :
    Outside lo hi T T'' :=
  fun n apart => (second n apart).trans (first n apart)

theorem wider (h : Outside lo hi T T') (low : lo' ≤ lo) (high : hi ≤ hi') :
    Outside lo' hi' T T' :=
  fun n apart => h n (apart.imp (fun below => by omega) fun above => by omega)

theorem eq_of_empty (h : Outside lo lo T T') : T' = T :=
  funext fun n => h n (Nat.lt_or_ge n lo)

end Outside

/-- A temporary gets a value. -/
def Held.set (T : Held) (n : Nat) (v : Value) : Held := fun k => if k = n then some v else T k

theorem Held.set_self (T : Held) (n v) : T.set n v n = some v := if_pos rfl

theorem Held.set_outside (T n v) : Outside n (n + 1) T (T.set n v) :=
  fun k apart => if_neg (by omega)

section

variable {α : Type} {m m' : Machine} {T T' : Held} {busy : Storage → Prop}

theorem onMachine_takes (h : x m = .ok a m') :
    Takes (At m T) (onMachine x) (· = a) (At m' T) bad := by
  rintro s ⟨machine, temps, set⟩
  have ended : onMachine x s = .ok a { s with machine := m' } := by
    unfold onMachine
    rw [machine, h]
  exact Ensures.ended ended ⟨rfl, rfl, temps, set⟩

theorem orUndefined_takes (h : o = some a) : Takes P (orUndefined o) (· = a) P bad := by
  subst h
  exact .ret rfl

theorem orTrap_takes (h : r = .ok v) :
    Takes (At m T) (onMachine (Eval.orTrap r)) (· = v) (At m T) bad := by
  subst h
  exact onMachine_takes rfl

theorem read_var_takes (h : Eval.readLocal name m = .ok v m) :
    Takes (At m T) (read c (.var name)) (· = v) (At m T) bad := by
  intro s within
  have set : ¬s.isUnset name = true := by simp [State.isUnset, within.2.2]
  refine Ensures.fromState ?_
  rw [if_neg set]
  exact onMachine_takes h s within

theorem write_var_takes (h : Eval.writeLocal name v m = .ok () m') :
    Takes (At m T) (write c v (.var name)) (fun _ => True) (At m' T) bad := by
  refine Takes.andThen (onMachine_takes h) fun _ _ => ?_
  rintro s ⟨machine, temps, set⟩
  refine Ensures.modified ⟨trivial, machine, temps, ?_⟩
  simp [State.markSet, set]

theorem truth_takes (b) :
    Takes (At m T) (onMachine (Eval.truth (.boolean b))) (· = b) (At m T) bad :=
  onMachine_takes rfl

/-! ## Operands that do nothing -/

variable {c : Context} {steps : Nat} {types : Temps} {v : Value}

theorem literal_takes (P : State → Prop) (v) :
    Takes P (exec c steps types (.literal v)) (Quiet safe v) P bad :=
  .ret ⟨rfl, rfl, rfl, forall_mem_nil _⟩

theorem temp_takes (held : T n = some v) (allowed : safe (.temp n)) :
    Takes (At m T) (exec c steps types (.temp n)) (Quiet safe v) (At m T) bad := by
  rintro s ⟨rfl, rfl, set⟩
  have found : read c (.temp n) s = .ok v s := by
    change orUndefined (s.temps n) s = _
    rw [held]
    rfl
  have ended : exec c steps types (.temp n) s = .ok (v, Accesses.reading {} (.temp n)) s := by
    change EStateM.bind (read c (.temp n)) _ s = _
    unfold EStateM.bind
    rw [found]
    rfl
  refine Ensures.ended ended ⟨⟨rfl, rfl, rfl, ?_⟩, rfl, rfl, set⟩
  intro st member
  rw [mem_singleton.mp member]
  exact allowed

theorem literal_quiet (P : State → Prop) (v) :
    Takes P (exec c steps types (.literal v)) (Quiet (fun _ => True) v) P bad :=
  literal_takes P v

theorem temp_quiet (held : T n = some v) :
    Takes (At m T) (exec c steps types (.temp n)) (Quiet (fun _ => True) v) (At m T) bad :=
  temp_takes held trivial

theorem temp_busy (held : T n = some v) :
    Takes (At m T) (exec c steps types (.temp n)) (Busy busy v) (At m T) bad :=
  (temp_quiet held).mono fun _ h => h.toBusy

/-! ## One after the other -/

/-- All writes are `busy`. -/
def Within (busy : Storage → Prop) (acc : Accesses) : Prop := ∀ st ∈ acc.writes, busy st

theorem execInOrder_nil : Takes P (execInOrder c steps types []) (Within busy) P bad :=
  .ret (forall_mem_nil _)

theorem execInOrder_cons (first : Takes P (exec c steps types e) (Busy busy v) Q bad)
    (others : Takes Q (execInOrder c steps types rest) (Within busy) R bad) :
    Takes P (execInOrder c steps types (e :: rest)) (Within busy) R bad := by
  refine first.andThen fun r within => others.andThen fun acc within' => .ret ?_
  intro st member
  exact (mem_append.mp member).elim (within.writes st) (within' st)

theorem Accesses.join_assoc (a b d : Accesses) : (a.join b).join d = a.join (b.join d) := by
  simp only [Accesses.join, append_assoc]

theorem execInOrder_eq_append (front back) :
    execInOrder c steps types (front ++ back) = (do
      let a ← execInOrder c steps types front
      let b ← execInOrder c steps types back
      return a.join b) := by
  induction front with
  | nil =>
    have unit : (fun b : Accesses => (pure (Accesses.join {} b) : Exec Accesses)) = pure := rfl
    simp only [nil_append, execInOrder, pure_bind, unit, bind_pure]
  | cons e rest ih =>
    simp only [cons_append, execInOrder, ih, bind_assoc, pure_bind, Accesses.join_assoc]

theorem execInOrder_append (first : Takes P (execInOrder c steps types front) (Within busy) Q bad)
    (others : Takes Q (execInOrder c steps types back) (Within busy) R bad) :
    Takes P (execInOrder c steps types (front ++ back)) (Within busy) R bad := by
  rw [execInOrder_eq_append]
  refine first.andThen fun a within => others.andThen fun b within' => .ret ?_
  intro st member
  exact (mem_append.mp member).elim (within st) (within' st)

theorem execInOrder_single (h : Takes P (exec c steps types e) (Busy busy v) Q bad) :
    Takes P (execInOrder c steps types [e]) (Within busy) Q bad :=
  execInOrder_cons h execInOrder_nil

/-- A value kept in a temporary that it does not touch itself. -/
theorem assign_temp_takes (h : Takes (At m T) (exec c steps types e) (Busy busy v) (At m' T') bad)
    (free : ¬busy (.temp n)) (type : types[n]? = some v.type) :
    Takes (At m T) (exec c steps types (.assign (.temp n) e))
      (Busy (fun st => busy st ∨ st = .temp n) v) (At m' (T'.set n v)) bad := by
  have located : ∀ P, Takes P (locate c steps types (.temp n))
      (Quiet (fun _ => False) (.temp n)) P bad :=
    fun P => .ret ⟨rfl, rfl, rfl, forall_mem_nil _⟩
  refine (both_second (At.steady m T) (fun _ => False.elim) (located _) (located _) h).andThen ?_
  rintro ⟨⟨st, w⟩, acc⟩ ⟨value, writes, pending⟩
  cases value
  dsimp only at writes pending ⊢
  unfold storeTo
  rw [if_neg fun member => free (pending _ member)]
  refine Takes.eq_andThen (orUndefined_takes type) ?_
  rw [Value.cast_type]
  have written : Takes (At m' T') (write c v (.temp n)) (fun _ => True) (At m' (T'.set n v)) bad := by
    rintro s ⟨rfl, rfl, set⟩
    exact ⟨trivial, rfl, rfl, set⟩
  refine written.andThen fun _ _ => .ret ⟨rfl, ?_, ?_⟩
  · rintro st (_ | ⟨_, member⟩)
    · exact .inr rfl
    · exact .inl (writes st member)
  · rintro st (_ | ⟨_, member⟩)
    · exact .inr rfl
    · exact .inl (pending st member)

end

/-! ## What an expression can touch -/

/-- The place may be this storage. -/
def Storage.isOf : Storage → Place GridKernel.Expr → Bool
  | .var a, .var b => a == b
  | .field a, .field b => a == b
  | .element a _, .element b _ => a == b
  | _, _ => false

/-- The node itself assigns to the storage. -/
def Storage.isAssigned (st : Storage) : GridKernel.Expr → Bool
  | .assign place _ _ => st.isOf place
  | .step place _ _ => st.isOf place
  | _ => false

/-- The storage that expressions with these nodes can touch, if their temporaries are those from
`lo` to before `hi`. -/
def Reaches (nodes : List GridKernel.Expr) (lo hi : Nat) (st : Storage) : Prop :=
  (∃ node ∈ nodes, st.isAssigned node = true) ∨ ∃ n, st = .temp n ∧ lo ≤ n ∧ n < hi

namespace Reaches

variable {nodes : List GridKernel.Expr} {lo hi : Nat} {st : Storage}

theorem mono (h : Reaches nodes lo hi st) (sub : ∀ e ∈ nodes, e ∈ nodes')
    (low : lo' ≤ lo := by exact Nat.le_refl _)
    (high : hi ≤ hi' := by exact Nat.le_refl _) : Reaches nodes' lo' hi' st := by
  rcases h with ⟨node, member, assigned⟩ | ⟨n, rfl, above, below⟩
  · exact .inl ⟨node, sub node member, assigned⟩
  · exact .inr ⟨n, rfl, by omega, by omega⟩

theorem not_temp (apart : n < lo ∨ hi ≤ n) : ¬Reaches nodes lo hi (.temp n) := by
  rintro (⟨node, -, assigned⟩ | ⟨k, same, above, below⟩)
  · cases node <;> cases assigned
  · cases same
    omega

end Reaches

/-- The temporaries below a number. -/
def Below (b : Nat) (st : Storage) : Prop := ∃ n < b, st = .temp n

theorem Below.not_reaches (h : Below b st) : ¬Reaches nodes b hi st := by
  obtain ⟨n, below, rfl⟩ := h
  exact Reaches.not_temp (.inl below)

/-- The accesses go to an element of an array that a part of the index assigns to. -/
def indexesItself : GridKernel.Expr → Bool
  | .element array index => assigns (.element array index) index
  | .assign (.element array index) none value =>
    value.isLiteral && assigns (.element array index) index
  | _ => false

/-- Some part of these expressions accesses an element of an array that its index assigns to. -/
def SelfIndexed (nodes : List GridKernel.Expr) : Prop :=
  ∃ node ∈ nodes, indexesItself node = true

theorem SelfIndexed.mono (h : SelfIndexed nodes) (sub : ∀ e ∈ nodes, e ∈ nodes') :
    SelfIndexed nodes' := by
  obtain ⟨node, member, itself⟩ := h
  exact ⟨node, sub node member, itself⟩

/-! ## Runs -/

/-- The temporaries below a number are the same. -/
def Agree (b : Nat) (T T' : Held) : Prop := ∀ n < b, T' n = T n

theorem Agree.refl (b T) : Agree b T T := fun _ _ => rfl

theorem Agree.trans (first : Agree b T T') (second : Agree b T' T'') : Agree b T T'' :=
  fun n below => (second n below).trans (first n below)

theorem Agree.mono (h : Agree b T T') (less : b' ≤ b) : Agree b' T T' :=
  fun n below => h n (Nat.lt_of_lt_of_le below less)

theorem Outside.agree (h : Outside lo hi T T') : Agree lo T T' :=
  fun n below => h n (.inl below)

section

variable (c : Context) (steps : Nat) (types : Temps)

/-- Expressions that run before others lead from one state to another. -/
def Leads (front : List Expr) (nodes : List GridKernel.Expr) (lo hi : Nat) (m : Machine) (T : Held)
    (m' : Machine) (T' : Held) : Prop :=
  Takes (At m T) (execInOrder c steps types front) (Within (Reaches nodes lo hi)) (At m' T')
      (SelfIndexed nodes) ∧
    Outside lo hi T T'

/-- The expression leads from one machine to another and yields a value. -/
def Yields (e : Expr) (nodes : List GridKernel.Expr) (lo hi : Nat) (m : Machine) (T : Held)
    (v : Value) (m' : Machine) : Prop :=
  ∃ T', Outside lo hi T T' ∧
    Takes (At m T) (exec c steps types e) (Busy (Reaches nodes lo hi) v) (At m' T')
      (SelfIndexed nodes)

/-- What runs before the expression and then its value lead from one machine to another and yield
a value. The value does not look at temporaries that are allocated after it. -/
def Runs (em : Emitted) (nodes : List GridKernel.Expr) (lo hi : Nat) (m : Machine) (T : Held)
    (v : Value) (m' : Machine) : Prop :=
  ∃ mid T₁, m.memory.Keeps mid.memory ∧ Leads c steps types em.pre nodes lo hi m T mid T₁ ∧
    ∀ T', Agree hi T₁ T' → Yields c steps types em.value nodes lo hi mid T' v m'

end

section

variable {em : Emitted}

theorem exec_operand (em : Emitted) :
    exec c steps types em.operand = exec c steps types em.value := by
  obtain ⟨pre, value, simple⟩ := em
  cases simple with
  | true => rfl
  | false =>
    change exec c steps types (.paren value) = _
    rw [exec]

/-- A call of anything but an atomic function. -/
theorem exec_call (plain : ∀ op width, callee ≠ .atomic op width) :
    exec c steps types (.call callee args) = (do
      let (values, acc) ← unsequenced (execs c steps types args)
      return (← function c steps callee values, acc.settled)) := by
  rw [exec]
  · exact fun op width _ _ same _ => plain op width same
  · exact fun op width _ _ _ same _ => plain op width same

namespace Leads

theorem nil (m T) : Leads c steps types [] nodes lo hi m T m T :=
  ⟨execInOrder_nil, .refl T⟩

theorem mono (h : Leads c steps types front nodes lo hi m T m' T')
    (sub : ∀ e ∈ nodes, e ∈ nodes') (low : lo' ≤ lo := by exact Nat.le_refl _)
    (high : hi ≤ hi' := by exact Nat.le_refl _) :
    Leads c steps types front nodes' lo' hi' m T m' T' := by
  refine ⟨h.1.imp (fun _ h => h) ?_ (fun _ h => h) (·.mono sub), h.2.wider low high⟩
  exact fun _ within st member => (within st member).mono sub low high

theorem append (first : Leads c steps types front nodes lo hi m T m₁ T₁)
    (second : Leads c steps types back nodes lo hi m₁ T₁ m' T') :
    Leads c steps types (front ++ back) nodes lo hi m T m' T' :=
  ⟨execInOrder_append first.1 second.1, first.2.trans second.2⟩

theorem single (h : Takes (At m T) (exec c steps types e) (Busy (Reaches nodes lo hi) v) (At m' T')
      (SelfIndexed nodes)) (outside : Outside lo hi T T') :
    Leads c steps types [e] nodes lo hi m T m' T' :=
  ⟨execInOrder_single h, outside⟩

/-- A value kept in the temporary after those it uses. -/
theorem keep (h : Takes (At m T) (exec c steps types e) (Busy (Reaches nodes lo hi) v) (At m' T')
      (SelfIndexed nodes)) (outside : Outside lo hi T T') (ordered : lo ≤ hi)
    (type : types[hi]? = some v.type) :
    Leads c steps types [.assign (.temp hi) e] nodes lo (hi + 1) m T m' (T'.set hi v) := by
  have stored := assign_temp_takes h (Reaches.not_temp (.inr (Nat.le_refl hi))) type
  refine .single (stored.mono fun r busy => busy.imp fun st reached => ?_) ?_
  · rcases reached with reached | rfl
    · exact reached.mono (fun _ found => found) (Nat.le_refl lo) (Nat.le_succ hi)
    · exact .inr ⟨hi, rfl, ordered, Nat.lt_succ_self hi⟩
  · exact (outside.wider (Nat.le_refl lo) (Nat.le_succ hi)).trans
      ((T'.set_outside hi v).wider ordered (Nat.le_refl _))

end Leads

theorem Yields.mono (h : Yields c steps types e nodes lo hi m T v m')
    (sub : ∀ e ∈ nodes, e ∈ nodes') (low : lo' ≤ lo) (high : hi ≤ hi') :
    Yields c steps types e nodes' lo' hi' m T v m' := by
  obtain ⟨T', outside, taken⟩ := h
  refine ⟨T', outside.wider low high, taken.imp (fun _ h => h) ?_ (fun _ h => h) (·.mono sub)⟩
  exact fun _ busy => busy.imp fun _ reaches => reaches.mono sub low high

/-- An expression that leaves the temporaries alone. -/
theorem Yields.still
    (h : Takes (At m T) (exec c steps types e) (Busy (Reaches nodes lo hi) v) (At m' T)
      (SelfIndexed nodes)) : Yields c steps types e nodes lo hi m T v m' :=
  ⟨T, .refl T, h⟩

namespace Runs

theorem mono (h : Runs c steps types em nodes lo hi m T v m')
    (sub : ∀ e ∈ nodes, e ∈ nodes') (low : lo' ≤ lo := by exact Nat.le_refl _)
    (high : hi ≤ hi' := by exact Nat.le_refl _) :
    Runs c steps types em nodes' lo' hi' m T v m' := by
  obtain ⟨mid, T₁, shape, before, value⟩ := h
  exact ⟨mid, T₁, shape, before.mono sub low high, fun T' agree =>
    (value T' (agree.mono high)).mono sub low high⟩

/-- A value that needs nothing before it. -/
theorem direct (h : ∀ T, Yields c steps types value nodes lo hi m T v m') :
    Runs c steps types ⟨[], value, simple⟩ nodes lo hi m T v m' :=
  ⟨m, T, .refl m.memory, .nil m T, fun T' _ => h T'⟩

/-- Nothing before the value and no temporaries: the value alone is run. -/
theorem alone (h : Runs c steps types em nodes lo lo m T v m') (plain : em.pre = []) :
    Takes (At m T) (exec c steps types em.value) (Busy (Reaches nodes lo lo) v) (At m' T)
      (SelfIndexed nodes) := by
  obtain ⟨mid, T₁, -, ⟨before, -⟩, value⟩ := h
  rw [plain] at before
  obtain ⟨-, machine, temps, -⟩ := before _ (At.start m T)
  obtain rfl : m = mid := machine
  obtain rfl : T = T₁ := temps
  obtain ⟨T₂, outside, taken⟩ := value T (.refl lo T)
  rw [outside.eq_of_empty] at taken
  exact taken

/-- Everything joined by commas. -/
theorem inlined (h : Runs c steps types em nodes lo hi m T v m') :
    Yields c steps types em.inlineOperand nodes lo hi m T v m' := by
  obtain ⟨pre, value, simple⟩ := em
  obtain ⟨mid, T₁, -, ⟨before, outside⟩, yields⟩ := h
  obtain ⟨T₂, outside', taken⟩ := yields T₁ (.refl hi T₁)
  refine ⟨T₂, outside.trans outside', ?_⟩
  cases pre with
  | nil =>
    obtain ⟨-, machine, temps, -⟩ := before _ (At.start m T)
    obtain rfl : m = mid := machine
    obtain rfl : T = T₁ := temps
    change Takes _ (exec c steps types (Emitted.operand ⟨[], value, simple⟩)) _ _ _
    rw [exec_operand]
    exact taken
  | cons e rest =>
    change Takes _ (exec c steps types (.comma (e :: rest) value)) _ _ _
    rw [exec]
    refine before.andThen fun acc within => taken.andThen fun r busy => .ret ⟨busy.value, ?_, ?_⟩
    · intro st member
      exact (mem_append.mp member).elim (within st) (busy.writes st)
    · exact busy.pending

/-- The value kept in the next temporary. -/
theorem kept (h : Runs c steps types em nodes lo hi m T v m')
    (same : exec c steps types e = exec c steps types em.value) (ordered : lo ≤ hi)
    (type : types[hi]? = some v.type) :
    ∃ T', T' hi = some v ∧
      Leads c steps types (em.pre ++ [.assign (.temp hi) e]) nodes lo (hi + 1) m T m' T' := by
  obtain ⟨mid, T₁, -, before, yields⟩ := h
  obtain ⟨T₂, outside, taken⟩ := yields T₁ (.refl hi T₁)
  rw [← same] at taken
  exact ⟨T₂.set hi v, T₂.set_self hi v,
    (before.mono (fun _ found => found) (Nat.le_refl lo) (Nat.le_succ hi)).append
      (.keep taken outside ordered type)⟩

end Runs

end

end GridKernel.Target
