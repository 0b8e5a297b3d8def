import GridKernel.Proofs.Memory.Shape
import Mathlib.Logic.Function.Basic

/-!
# Linearizability of atomic operations

Threads share one slot. An operation reads the slot once and then tries to swap in the slot's next
value, until a swap succeeds or the value it has seen leaves it nothing to store. A swap fails if
the slot has changed, and it may fail for no reason; either way it shows what the slot holds. The
steps of the threads interleave in any order.

An operation takes effect in a single step: the swap that succeeds, or the read or failed swap that
shows it a value which it leaves alone. In the order of these steps, all operations do what they do
one at a time.
-/

namespace GridKernel.Atomic

open List

/-! ## One operation -/

/-- What a thread asks of the slot. -/
structure Request where
  op : AtomicOp
  operands : List Int64
  deriving DecidableEq, Repr

/-- Where an operation is between its steps. -/
inductive Stage where
  | load
  /-- It goes on with the value that it saw last. -/
  | loop (seen : Int64)
  | leave (result : Int64)
  deriving DecidableEq, Repr

namespace Request

variable (r : Request) (w : SlotWidth)

def next (current : Int64) : Option Int64 := r.op.next current r.operands w

/-- The slot and the result after the operation, if nothing comes between its steps. -/
def apply (current : Int64) : Int64 × Int64 := r.op.apply w current r.operands

/-- What an operation returns when the slot holds `before`. -/
def answer (before : Int64) : Int64 :=
  if r.op = .set then w.wrap (r.operands.headD 0) else before

/-- The next step of an operation that has not got its result: the slot after it and where the
operation is then. If `weak` is set, a swap fails that could succeed. -/
def advance (weak : Bool) (cell : Int64) : Stage → Int64 × Stage
  | .load => (cell, .loop cell)
  | .loop seen =>
    match r.next w seen with
    | none => (cell, .leave seen)
    | some next =>
      if cell = seen ∧ weak = false then (next, .leave (if r.op = .set then next else seen))
      else (cell, .loop cell)
  | .leave result => (cell, .leave result)

/-- The result of an operation that has taken effect. -/
def result? : Stage → Option Int64
  | .load => none
  | .loop seen => if (r.next w seen).isNone then some seen else none
  | .leave result => some result

variable {r w} (weak : Bool) (cell : Int64) {stage : Stage}

theorem apply_eq (r : Request) (w) :
    r.apply w cell = ((r.next w cell).getD cell, r.answer w cell) := by
  unfold apply AtomicOp.apply answer next
  cases found : r.op.next cell r.operands w with
  | none =>
    have other : r.op ≠ .set := by
      intro set
      simp [AtomicOp.next, set] at found
    simp [other]
  | some next =>
    by_cases set : r.op = .set
    · simp only [AtomicOp.next, set, SlotWidth.wrap_wrap, Option.some.injEq] at found
      simp only [set, if_true, Option.getD_some, found]
    · simp [set]

/-- After its effect an operation does not touch the slot again and keeps its result. -/
theorem advance_of_result (decided : r.result? w stage = some v) :
    (r.advance w weak cell stage).1 = cell ∧
      r.result? w (r.advance w weak cell stage).2 = some v := by
  cases stage with
  | load => cases decided
  | loop seen =>
    cases found : r.next w seen with
    | none => simp_all [result?, advance]
    | some next => simp [result?, found] at decided
  | leave result => exact ⟨rfl, decided⟩

/-- Seeing the slot is an effect if there is nothing to store. -/
theorem result?_loop_cell (r : Request) (w) :
    r.result? w (.loop cell) = none ∨
      ∃ v, r.result? w (.loop cell) = some v ∧ (cell, v) = r.apply w cell := by
  cases found : r.next w cell with
  | none => exact .inr ⟨cell, by simp [result?, found], by simp_all [apply, AtomicOp.apply, next]⟩
  | some next => exact .inl (by simp [result?, found])

/-- Before its effect an operation leaves the slot alone, and the effect is that of the whole
operation. -/
theorem advance_of_no_result (undecided : r.result? w stage = none) :
    (r.advance w weak cell stage).1 = cell ∧
        r.result? w (r.advance w weak cell stage).2 = none ∨
      ∃ v, r.result? w (r.advance w weak cell stage).2 = some v ∧
        ((r.advance w weak cell stage).1, v) = r.apply w cell := by
  have seen : (cell = cell ∧ r.result? w (.loop cell) = none) ∨
      ∃ v, r.result? w (.loop cell) = some v ∧ (cell, v) = r.apply w cell :=
    (result?_loop_cell cell r w).imp_left fun h => ⟨rfl, h⟩
  cases stage with
  | load => exact seen
  | loop old =>
    cases found : r.next w old with
    | none => simp [result?, found] at undecided
    | some next =>
      by_cases swapped : cell = old ∧ weak = false
      · obtain ⟨rfl, rfl⟩ := swapped
        right
        refine ⟨if r.op = .set then next else cell, ?_, ?_⟩
        · simp [advance, found, result?]
        · simp_all [advance, apply, AtomicOp.apply, Request.next]
      · simpa only [advance, found, if_neg swapped] using seen
  | leave result => cases undecided

end Request

/-! ## Threads -/

/-- An operation that was called, with the time of the call. -/
structure Operation where
  request : Request
  start : Nat
  stage : Stage := .load
  deriving DecidableEq, Repr

structure Thread where
  todo : List Request
  current : Option Operation := none
  deriving DecidableEq, Repr

/-- An operation that has its result. -/
structure Outcome where
  request : Request
  result : Int64
  start : Nat
  deriving DecidableEq, Repr

namespace Thread

/-- The next step of a thread. It calls the next operation, or takes the operation under way one
step further, or returns from it. -/
def step (w : SlotWidth) (weak : Bool) (cell : Int64) (clock : Nat) (t : Thread) :
    Thread × Int64 × Option Outcome :=
  match t.current with
  | none =>
    match t.todo with
    | [] => (t, cell, none)
    | r :: rest => (⟨rest, some ⟨r, clock, .load⟩⟩, cell, none)
  | some o =>
    match o.stage with
    | .leave result => (⟨t.todo, none⟩, cell, some ⟨o.request, result, o.start⟩)
    | stage =>
      let (cell, stage) := o.request.advance w weak cell stage
      (⟨t.todo, some { o with stage := stage }⟩, cell, none)

/-- The operations that have not returned. -/
def remaining (t : Thread) : List Request := (t.current.map Operation.request).toList ++ t.todo

/-- The outcome of the operation under way, if it has taken effect. -/
def outcome? (w : SlotWidth) (t : Thread) : Option Outcome :=
  t.current.bind fun o => (o.request.result? w o.stage).map fun v => ⟨o.request, v, o.start⟩

/-- What a step of a thread can be. -/
inductive StepOf (w : SlotWidth) (cell : Int64) (t : Thread) :
    Thread × Int64 × Option Outcome → Prop
  | quiet {t' : Thread} (remaining : t'.remaining = t.remaining)
      (outcome : t'.outcome? w = t.outcome? w) : StepOf w cell t (t', cell, none)
  | effect {t' : Thread} {cell' : Int64} (o : Outcome) (remaining : t'.remaining = t.remaining)
      (before : t.outcome? w = none) (after : t'.outcome? w = some o)
      (applied : (cell', o.result) = o.request.apply w cell)
      (started : ∃ p, t.current = some p ∧ p.start = o.start) : StepOf w cell t (t', cell', none)
  | returns {t' : Thread} (o : Outcome) (remaining : t.remaining = o.request :: t'.remaining)
      (before : t.outcome? w = some o) (after : t'.outcome? w = none) :
      StepOf w cell t (t', cell, some o)

theorem step_cases (w weak cell clock t) : StepOf w cell t (t.step w weak cell clock) := by
  obtain ⟨todo, current⟩ := t
  cases current with
  | none =>
    cases todo with
    | nil | cons r rest => exact .quiet rfl rfl
  | some o =>
    obtain ⟨r, start, stage⟩ := o
    by_cases left : ∃ result, stage = .leave result
    · obtain ⟨result, rfl⟩ := left
      exact .returns ⟨r, result, start⟩ rfl rfl rfl
    · have goes : step w weak cell clock ⟨todo, some ⟨r, start, stage⟩⟩ =
          (⟨todo, some ⟨r, start, (r.advance w weak cell stage).2⟩⟩,
            (r.advance w weak cell stage).1, none) := by
        cases stage with
        | load | loop seen => rfl
        | leave result => exact absurd ⟨result, rfl⟩ left
      rw [goes]
      cases decided : r.result? w stage with
      | some v =>
        obtain ⟨same, kept⟩ := Request.advance_of_result weak cell decided
        rw [same]
        refine .quiet rfl ?_
        simp [outcome?, decided, kept]
      | none =>
        rcases Request.advance_of_no_result weak cell decided with
          ⟨same, still⟩ | ⟨v, now, applied⟩
        · rw [same]
          refine .quiet rfl ?_
          simp [outcome?, decided, still]
        · refine .effect ⟨r, v, start⟩ rfl ?_ ?_ applied ⟨_, rfl, rfl⟩
          · simp [outcome?, decided]
          · simp [outcome?, now]

theorem start_of_step {w : SlotWidth} {weak : Bool} {cell : Int64} {clock : Nat} {t : Thread}
    {o : Operation} (current : (t.step w weak cell clock).1.current = some o) :
    o.start = clock ∨ ∃ p, t.current = some p ∧ p.start = o.start := by
  obtain ⟨todo, _ | ⟨r, start, stage⟩⟩ := t
  · cases todo with
    | nil => cases current
    | cons r rest =>
      cases current
      exact .inl rfl
  · cases stage with
    | leave result => cases current
    | load | loop =>
      cases current
      exact .inr ⟨_, rfl, rfl⟩

theorem outcome?_of_finished {w : SlotWidth} {t : Thread} (finished : t.remaining = []) :
    t.outcome? w = none := by
  obtain ⟨todo, _ | o⟩ := t
  · rfl
  · cases finished

end Thread

/-! ## Runs -/

variable {ι : Type}

/-- The slot and the threads that share it; `clock` counts the steps. -/
structure State (ι : Type) where
  cell : Int64
  threads : ι → Thread
  clock : Nat := 0

/-- An operation that has returned. -/
structure Call (ι : Type) extends Outcome where
  thread : ι
  finish : Nat
  deriving DecidableEq, Repr

namespace State

/-- No operation has been called. -/
def initial (cell : Int64) (programs : ι → List Request) : State ι where
  cell := cell
  threads i := { todo := programs i }

/-- All operations have returned. -/
def Finished (s : State ι) : Prop := ∀ i, (s.threads i).remaining = []

/-- The operations under way were called in the past. -/
def Timed (s : State ι) : Prop :=
  ∀ i o, (s.threads i).current = some o → o.start ≤ s.clock

variable [DecidableEq ι]

/-- A thread has taken a step. -/
def after (s : State ι) (i : ι) (t : Thread) (cell : Int64) : State ι :=
  ⟨cell, Function.update s.threads i t, s.clock + 1⟩

/-- A step of one thread. -/
def step (w : SlotWidth) (i : ι) (weak : Bool) (s : State ι) : State ι × Option (Call ι) :=
  let (t, cell, outcome) := (s.threads i).step w weak s.cell s.clock
  (s.after i t cell, outcome.map fun o => ⟨o, i, s.clock⟩)

/-- The threads take steps in the order of the schedule, which also says where a swap fails for no
reason. Returns the calls in the order in which they return. -/
def run (w : SlotWidth) : List (ι × Bool) → State ι → State ι × List (Call ι)
  | [], s => (s, [])
  | (i, weak) :: rest, s =>
    let (s₁, call) := s.step w i weak
    let (s₂, calls) := run w rest s₁
    (s₂, call.toList ++ calls)

variable {s : State ι} {i : ι} {cell : Int64}

theorem after_self : (s.after i t cell).threads i = t := by simp [after]

theorem after_ne (other : j ≠ i) : (s.after i t cell).threads j = s.threads j := by
  simp [after, other]

/-- What is the same for one thread after its step is the same for all of them. -/
theorem after_same (f : Thread → α) (same : f t = f (s.threads i)) (j : ι) :
    f ((s.after i t cell).threads j) = f (s.threads j) := by
  by_cases here : j = i
  · subst here
    rw [after_self, same]
  · rw [after_ne here]

theorem Timed.step (h : s.Timed) : (s.step w i weak).1.Timed := by
  intro j o current
  by_cases here : j = i
  · subst here
    rw [State.step, after_self] at current
    rcases Thread.start_of_step current with now | ⟨p, under, start⟩
    · exact now ▸ Nat.le_succ s.clock
    · exact start ▸ Nat.le_succ_of_le (h j p under)
  · rw [State.step, after_ne here] at current
    exact Nat.le_succ_of_le (h j o current)

end State

/-! ## Order -/

/-- The operations one at a time: each one returns what it finds, or what it stores if it is a
plain store, and hands the next value of the slot on. -/
inductive Sequential (w : SlotWidth) : Int64 → List (Call ι) → Int64 → Prop
  | nil (cell : Int64) : Sequential w cell [] cell
  | cons {cell final : Int64} {c : Call ι} {rest : List (Call ι)}
      (result : c.result = c.request.answer w cell)
      (others : Sequential w ((c.request.next w cell).getD cell) rest final) :
      Sequential w cell (c :: rest) final

section

variable [DecidableEq ι]

def callsOf (i : ι) (cs : List (Call ι)) : List (Call ι) := cs.filter (·.thread = i)

theorem callsOf_append (i : ι) (cs cs') :
    callsOf i (cs ++ cs') = callsOf i cs ++ callsOf i cs' := filter_append cs cs'

theorem callsOf_cons_self (c : Call ι) (cs : List (Call ι)) :
    callsOf c.thread (c :: cs) = c :: callsOf c.thread cs := by simp [callsOf]

theorem callsOf_cons_ne (other : c.thread ≠ i) (cs : List (Call ι)) :
    callsOf i (c :: cs) = callsOf i cs := by simp [callsOf, other]

/-- The calls that return from now on. Those of `early` have taken effect, and the others will do so
in the order of `late`. -/
structure Linearization (w : SlotWidth) (s : State ι) (calls : List (Call ι)) (final : Int64)
    (early late : List (Call ι)) : Prop where
  perm : (early ++ late).Perm calls
  own : ∀ i, (callsOf i (early ++ late)).map (·.request) = (s.threads i).remaining
  decided : ∀ i, (callsOf i early).map Call.toOutcome = ((s.threads i).outcome? w).toList
  later : ∀ c ∈ early ++ late, s.clock ≤ c.finish
  ordered : late.Pairwise fun a b => ¬b.finish < a.start
  sequential : Sequential w s.cell late final

namespace Linearization

variable {w : SlotWidth} {s : State ι} {i : ι} {cell : Int64} {early late : List (Call ι)}

theorem quiet (h : Linearization w (s.after i t s.cell) calls final
      early late) (remaining : t.remaining = (s.threads i).remaining)
    (outcome : t.outcome? w = (s.threads i).outcome? w) :
    Linearization w s calls final early late where
  perm := h.perm
  own j := (h.own j).trans (State.after_same Thread.remaining remaining j)
  decided j := (h.decided j).trans (congrArg _ (State.after_same (Thread.outcome? w) outcome j))
  later c member := Nat.le_of_succ_le (h.later c member)
  ordered := h.ordered
  sequential := h.sequential

/-- A call that returns in this step has taken effect before. -/
theorem returns (h : Linearization w (s.after i t s.cell) calls final early late)
    (remaining : (s.threads i).remaining = o.request :: t.remaining)
    (before : (s.threads i).outcome? w = some o) (after : t.outcome? w = none) :
    Linearization w s (⟨o, i, s.clock⟩ :: calls) final (⟨o, i, s.clock⟩ :: early) late where
  perm := h.perm.cons _
  own j := by
    have rest := h.own j
    by_cases here : j = i
    · subst here
      rw [State.after_self] at rest
      rw [cons_append, callsOf_cons_self ⟨o, j, s.clock⟩, map_cons, rest, remaining]
    · rw [State.after_ne here] at rest
      rw [cons_append, callsOf_cons_ne (Ne.symm here), rest]
  decided j := by
    have rest := h.decided j
    by_cases here : j = i
    · subst here
      rw [State.after_self, after] at rest
      rw [callsOf_cons_self ⟨o, j, s.clock⟩, map_cons, rest, before]
      rfl
    · rw [State.after_ne here] at rest
      rw [callsOf_cons_ne (Ne.symm here), rest]
  later := forall_mem_cons.mpr
    ⟨Nat.le_refl _, fun c member => Nat.le_of_succ_le (h.later c member)⟩
  ordered := h.ordered
  sequential := h.sequential

/-- The call that takes effect in this step is the first of those that are left. -/
theorem effect (h : Linearization w (s.after i t cell) calls final early late)
    (remaining : t.remaining = (s.threads i).remaining) (before : (s.threads i).outcome? w = none)
    (after : t.outcome? w = some o) (applied : (cell, o.result) = o.request.apply w s.cell)
    (started : o.start ≤ s.clock) : ∃ early' late', Linearization w s calls final early' late' := by
  have own := h.decided i
  rw [State.after_self, after] at own
  obtain ⟨c, only, rfl⟩ := map_eq_singleton_iff.mp own
  obtain ⟨member, here⟩ := mem_filter.mp (only ▸ mem_singleton_self c)
  obtain rfl : c.thread = i := of_decide_eq_true here
  obtain ⟨l₁, l₂, rfl⟩ := append_of_mem member
  rw [callsOf_append, callsOf_cons_self] at only
  obtain ⟨none₁, none₂⟩ : callsOf c.thread l₁ = [] ∧ callsOf c.thread l₂ = [] := by
    have lengths := congrArg List.length only
    simp only [length_append, length_cons, length_nil] at lengths
    exact ⟨eq_nil_of_length_eq_zero (by omega), eq_nil_of_length_eq_zero (by omega)⟩
  have moved : (l₁ ++ l₂ ++ c :: late).Perm (l₁ ++ c :: l₂ ++ late) := by
    rw [append_assoc, append_assoc, cons_append]
    exact perm_middle.append_left l₁
  rw [Request.apply_eq] at applied
  obtain ⟨stored, result⟩ := Prod.mk.inj applied
  refine ⟨l₁ ++ l₂, c :: late, moved.trans h.perm, ?_, ?_, ?_, ?_, ?_⟩
  · intro j
    rw [← State.after_same Thread.remaining remaining j, ← h.own j]
    by_cases same : c.thread = j
    · subst same
      simp only [callsOf_append, callsOf_cons_self, none₁, none₂, nil_append, cons_append]
    · simp only [callsOf_append, callsOf_cons_ne same]
  · intro j
    have rest := h.decided j
    by_cases same : c.thread = j
    · subst same
      simp only [callsOf_append, none₁, none₂, before, append_nil, map_nil,
        Option.toList_none]
    · rw [State.after_ne (Ne.symm same), callsOf_append, callsOf_cons_ne same] at rest
      rw [callsOf_append, rest]
  · intro d found
    exact Nat.le_of_succ_le (h.later d (moved.mem_iff.mp found))
  · refine pairwise_cons.mpr ⟨fun d found => ?_, h.ordered⟩
    have afterwards : s.clock + 1 ≤ d.finish := h.later d (mem_append_right _ found)
    omega
  · exact .cons result (stored ▸ h.sequential)

/-- Before a step of any thread there is an order for the calls that return from now on, if there is
one after it. -/
theorem before_step (timed : s.Timed)
    (h : Linearization w (s.step w i weak).1 calls final early late) :
    ∃ early' late', Linearization w s ((s.step w i weak).2.toList ++ calls) final early' late' := by
  have step := Thread.step_cases w weak s.cell s.clock (s.threads i)
  unfold State.step at h ⊢
  generalize (s.threads i).step w weak s.cell s.clock = r at step h
  cases step with
  | quiet remaining outcome => exact ⟨early, late, h.quiet remaining outcome⟩
  | effect o remaining before after applied started =>
    obtain ⟨p, current, start⟩ := started
    exact h.effect remaining before after applied (start ▸ timed i p current)
  | returns o remaining before after => exact ⟨_, late, h.returns remaining before after⟩

end Linearization

namespace State

variable {s : State ι} {w : SlotWidth} {i : ι}

theorem Timed.linearization (timed : s.Timed) (schedule)
    (finished : (s.run w schedule).1.Finished) :
    ∃ early late, Linearization w s (s.run w schedule).2 (s.run w schedule).1.cell early late := by
  induction schedule generalizing s with
  | nil =>
    refine ⟨[], [], .refl [], fun i => (finished i).symm, fun i => ?_, nofun, .nil, .nil _⟩
    have idle : (s.threads i).outcome? w = none := Thread.outcome?_of_finished (finished i)
    rw [idle]
    rfl
  | cons first rest ih =>
    obtain ⟨early, late, h⟩ := ih timed.step finished
    exact h.before_step timed

end State

end

/-- Whatever way the steps of the threads interleave, once all operations have returned they did what
they do in some order one at a time. The order keeps that of each thread, and no operation comes
after one that was called when it had returned. -/
theorem atomic_operations_linearizable [DecidableEq ι] (w : SlotWidth) (initial : Int64)
    (programs : ι → List Request) (schedule : List (ι × Bool))
    (finished : ((State.initial initial programs).run w schedule).1.Finished) :
    let after := (State.initial initial programs).run w schedule
    ∃ order : List (Call ι), order.Perm after.2 ∧
      (∀ i, (callsOf i order).map (·.request) = programs i) ∧
      order.Pairwise (fun a b => ¬b.finish < a.start) ∧ Sequential w initial order after.1.cell := by
  have timed : (State.initial initial programs).Timed := nofun
  obtain ⟨early, late, h⟩ := timed.linearization schedule finished
  obtain rfl : early = [] := by
    refine eq_nil_iff_forall_not_mem.mpr fun c member => ?_
    have own : (callsOf c.thread early).map Call.toOutcome = [] := h.decided c.thread
    have listed : c ∈ callsOf c.thread early := by simpa [callsOf] using member
    rw [map_eq_nil_iff.mp own] at listed
    cases listed
  exact ⟨late, h.perm, h.own, h.ordered, h.sequential⟩

/-- Two threads at a slot of 32 bits: one counts and stores 9 over the 4 that it expects, the other
one stores 2^32 + 3 and reads. -/
def contendedPrograms : Bool → List Request
  | false => [⟨.inc, []⟩, ⟨.cmpXchg, [4, 9]⟩]
  | true => [⟨.set, [4294967299]⟩, ⟨.get, []⟩]

/-- The store comes between the read and the swap of the first operation, and the second swap fails
for no reason. -/
def contendedSchedule : List (Bool × Bool) :=
  [(false, false), (false, false), (true, false), (true, false), (true, false), (true, false),
    (false, false), (false, true), (false, false), (false, false), (true, false), (false, false),
    (false, false), (false, false), (true, false), (false, false), (true, false), (true, false)]

theorem contended_operations_linearizable :
    ((State.initial 7 contendedPrograms).run .int contendedSchedule).1.Finished ∧
      ((State.initial 7 contendedPrograms).run .int contendedSchedule).1.cell = 9 ∧
      ∃ order : List (Call Bool),
        (∀ i, (callsOf i order).map (·.request) = contendedPrograms i) ∧
        order.Pairwise (fun a b => ¬b.finish < a.start) ∧ Sequential .int 7 order 9 := by
  have finished : ((State.initial 7 contendedPrograms).run .int contendedSchedule).1.Finished := by
    unfold State.Finished
    decide
  obtain ⟨order, -, own, ordered, sequential⟩ :=
    atomic_operations_linearizable .int 7 contendedPrograms contendedSchedule finished
  exact ⟨finished, by decide, order, own, ordered, sequential⟩

end GridKernel.Atomic
