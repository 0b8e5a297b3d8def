import GridKernel.Proofs.Dispatch.Keeps
import Mathlib.Logic.Function.Basic

/-!
# Threads that share an instance

Any number of threads call `compile` and `execute` on one instance. A compilation is one step. An
execution takes several: it takes the instance, reads the number of its pass, runs, perhaps compiles
for a later device and runs there, gives the instance back, counts its pass and hands on its report.
The steps of the threads interleave in any order.

`Transition` says what a step can do to what threads see of the instance. A call that no other
thread interrupts is the call as it is defined.
-/

namespace GridKernel.Concurrent

open GridKernel.Action Ensures

variable {σ ι α : Type}

/-! ## Calls and their stages -/

inductive Call where
  | compile
  | execute (range : Range)

/-- What an execution has settled once it has the instance. -/
structure Job where
  descriptor : Descriptor
  bound : List Bound
  range : Range
  localSize : Dim3
  /-- Where the instance was when it was taken. -/
  backend : Backend
  compiled : Bool

/-- The number of a pass and the step that read it. -/
structure Ticket where
  passId : Int32
  readAt : Nat

def Job.launch (j : Job) (n : Ticket) : Launch :=
  ⟨j.descriptor, j.bound, j.range, j.localSize, n.passId⟩

def Job.report (j : Job) (n : Ticket) (r : RunOutcome) : Report where
  kernel := j.descriptor.name
  device := r.backend.device
  passId := n.passId
  workItems := j.range.workItems
  timing := { compile := if j.compiled then some 0 else none }
  fellBack := r.fellBack

/-- Where an execution is between its steps. -/
inductive Stage where
  | taken (j : Job)
  | numbered (j : Job) (n : Ticket)
  /-- The accelerator failed, and a later device is to be tried. -/
  | failed (j : Job) (n : Ticket)
  | retrying (j : Job) (n : Ticket) (next : Backend)
  | ran (j : Job) (n : Ticket) (r : RunOutcome)
  | released (j : Job) (n : Ticket) (r : RunOutcome)
  | counted (j : Job) (n : Ticket) (r : RunOutcome) (countedAt : Nat)

/-- Whether the execution has the instance. -/
def Stage.holds : Stage → Bool
  | released _ _ _ | counted _ _ _ _ => false
  | _ => true

/-- What a call returns. -/
inductive Reply where
  | compiled (device : Device)
  /-- The report of an execution, and the steps that read the number of its pass and counted it. -/
  | executed (report : Report) (readAt countedAt : Nat)
  | failed (e : KernelError)

def Reply.isExecuted : Reply → Bool
  | executed _ _ _ => true
  | _ => false

/-- What a step leads to. -/
inductive Progress where
  | goes (stage : Stage)
  | ends (reply : Reply)

namespace Progress

def stage? : Progress → Option Stage
  | goes stage => some stage
  | ends _ => none

def reply? : Progress → Option Reply
  | goes _ => none
  | ends reply => some reply

/-- Whether the step counted a pass. -/
def isCounted : Progress → Bool
  | goes (.counted _ _ _ _) => true
  | _ => false

end Progress

/-! ## Steps -/

/-- The outcome of an action and the instance after it. -/
def outcome (x : Action σ α) (i : Instance σ) : Except KernelError α × Instance σ :=
  match x i with
  | .ok a j => (.ok a, j)
  | .error e j => (.error e, j)

/-- Checks the arguments of an execution and takes the instance. -/
def prepare (range : Range) : Action σ Job := do
  let i ← get
  let bound ← ofExcept .binding i.kernel.bound
  let localSize ← ofExcept .range (range.localSizes i.dispatcher.config.maxGroupSize)
  let (b, compiled) ← acquire
  return ⟨i.kernel.descriptor, bound, range, localSize, b, compiled⟩

/-- The first step of a call. -/
def start (c : Call) (i : Instance σ) : Progress × Instance σ :=
  match c with
  | .compile =>
    match outcome compile i with
    | (.ok device, i) => (.ends (.compiled device), i)
    | (.error e, i) => (.ends (.failed e), i)
  | .execute range =>
    match outcome (prepare range) i with
    | (.ok j, i) => (.goes (.taken j), i)
    | (.error e, i) => (.ends (.failed e), i)

/-- The next step of an execution. -/
def advance (now : Nat) (stage : Stage) (i : Instance σ) : Progress × Instance σ :=
  match stage with
  | .taken j => (.goes (.numbered j ⟨i.kernel.passId, now⟩), i)
  | .numbered j n =>
    match outcome (run id j.backend (j.launch n)) i with
    | (.ok _, i) => (.goes (.ran j n ⟨j.backend, false, .ok ()⟩), i)
    | (.error e, i) =>
      if e.isRetryable && i.dispatcher.config.fallback = .fallBack then (.goes (.failed j n), i)
      else (.goes (.ran j n ⟨j.backend, false, .error e⟩), i)
  | .failed j n =>
    match outcome (compileFor i.dispatcher.config.afterAccelerator) i with
    | (.ok next, i) => (.goes (.retrying j n next), i)
    | (.error e, i) => (.goes (.ran j n ⟨j.backend, false, .error e⟩), i)
  | .retrying j n next =>
    match outcome (run id next (j.launch n)) i with
    | (r, i) => (.goes (.ran j n ⟨next, true, r⟩), i)
  | .ran j n r =>
    match r.outcome with
    | .ok _ => (.goes (.released j n r), i.setState (.idle r.backend))
    | .error e => (.ends (.failed e), i.setState (.idle r.backend))
  | .released j n r => (.goes (.counted j n r now), (outcome countPass i).2)
  | .counted j n r countedAt =>
    (.ends (.executed (j.report n r) n.readAt countedAt),
      (outcome (publish (j.report n r)) i).2)

/-- Threads and the instance that they share. -/
structure Threads (σ ι : Type) where
  inst : Instance σ
  /-- Where each thread is, if it is in an execution. -/
  stage : ι → Option Stage
  /-- The number of steps so far. -/
  time : Nat
  /-- The steps that counted a pass. -/
  counts : List Nat
  /-- The calls that returned, the latest last. -/
  replies : List (ι × Reply)

namespace Threads

/-- No thread has called anything. -/
def initial (i : Instance σ) : Threads σ ι := ⟨i, fun _ => none, 0, [], []⟩

/-- The next step of a thread: of the execution that it is in, or of a new call. -/
def move (t : ι) (c : Call) (s : Threads σ ι) : Progress × Instance σ :=
  match s.stage t with
  | none => start c s.inst
  | some stage => advance s.time stage s.inst

variable [DecidableEq ι]

/-- The threads and their replies after a step of one of them. -/
def settle (s : Threads σ ι) (t : ι) (p : Progress) (i : Instance σ) : Threads σ ι where
  inst := i
  stage := Function.update s.stage t p.stage?
  time := s.time + 1
  counts := if p.isCounted then s.counts ++ [s.time] else s.counts
  replies := s.replies ++ (p.reply?.map (t, ·)).toList

def step (s : Threads σ ι) (t : ι) (c : Call) : Threads σ ι :=
  s.settle t (s.move t c).1 (s.move t c).2

/-- Performs steps of the threads that a schedule names. A call is given with each step and taken if
the thread is in none. -/
def run (s : Threads σ ι) (schedule : List (ι × Call)) : Threads σ ι :=
  schedule.foldl (fun s entry => s.step entry.1 entry.2) s

/-- What every step keeps, every run keeps. -/
theorem run_induction {P : Threads σ ι → Prop} {s : Threads σ ι} (start : P s)
    (next : ∀ s t c, P s → P (s.step t c)) (schedule) : P (s.run schedule) := by
  induction schedule generalizing s with
  | nil => exact start
  | cons entry rest ih => exact ih (next s entry.1 entry.2 start)

theorem run_append (s : Threads σ ι) (first second) :
    s.run (first ++ second) = (s.run first).run second := List.foldl_append

end Threads

/-! ## What a step does -/

/-- What threads see of an instance. -/
structure View where
  kernel : Kernel
  config : Config
  observers : Nat
  delivered : List Report

def view (i : Instance σ) : View :=
  ⟨i.kernel, i.dispatcher.config, i.dispatcher.observers, i.dispatcher.delivered⟩

theorem view_blind : Blind (view : Instance σ → View) :=
  ⟨⟨fun _ _ => rfl, fun _ _ _ => rfl⟩, fun _ _ => rfl⟩

def View.setState (v : View) (s : KernelState) : View :=
  { v with kernel := { v.kernel with state := s } }

/-- Where an instance is that nobody has. -/
inductive Ready (config : Config) (b : Backend) : KernelState → Prop
  | uncompiled (listed : b.device ∈ config.devices) : Ready config b .uncompiled
  | compiled : Ready config b (.compiled b)
  | idle : Ready config b (.idle b)

/-- A step of a thread: where it was, what it leads to, and the change to what threads see. -/
inductive Transition (now : Nat) : Option Stage → View → Progress → View → Prop
  | refuse {v : View} (e : KernelError) : Transition now none v (.ends (.failed e)) v
  | known {v : View} (d : Device) : Transition now none v (.ends (.compiled d)) v
  | compile {v : View} {b : Backend} (new : v.kernel.state = .uncompiled)
      (listed : b.device ∈ v.config.devices) :
      Transition now none v (.ends (.compiled b.device)) (v.setState (.compiled b))
  | take {v : View} {j : Job} (ready : Ready v.config j.backend v.kernel.state) :
      Transition now none v (.goes (.taken j)) (v.setState (.executing j.backend))
  | number (v : View) (j : Job) :
      Transition now (some (.taken j)) v (.goes (.numbered j ⟨v.kernel.passId, now⟩)) v
  | run (v : View) (j : Job) (n : Ticket) (r : Except KernelError Unit) :
      Transition now (some (.numbered j n)) v (.goes (.ran j n ⟨j.backend, false, r⟩)) v
  | fail {v : View} {j : Job} (n : Ticket) (accelerated : j.backend.device = .accelerator) :
      Transition now (some (.numbered j n)) v (.goes (.failed j n)) v
  | giveUp (v : View) (j : Job) (n : Ticket) (e : KernelError) :
      Transition now (some (.failed j n)) v (.goes (.ran j n ⟨j.backend, false, .error e⟩)) v
  | recompile {v : View} (j : Job) (n : Ticket) {next : Backend}
      (later : next.device ∈ v.config.afterAccelerator) :
      Transition now (some (.failed j n)) v (.goes (.retrying j n next)) v
  | rerun (v : View) (j : Job) (n : Ticket) (next : Backend) (r : Except KernelError Unit) :
      Transition now (some (.retrying j n next)) v (.goes (.ran j n ⟨next, true, r⟩)) v
  | release (v : View) (j : Job) (n : Ticket) {r : RunOutcome} (ended : r.outcome = .ok ()) :
      Transition now (some (.ran j n r)) v (.goes (.released j n r))
        (v.setState (.idle r.backend))
  | abandon (v : View) (j : Job) (n : Ticket) {r : RunOutcome} {e : KernelError}
      (ended : r.outcome = .error e) :
      Transition now (some (.ran j n r)) v (.ends (.failed e)) (v.setState (.idle r.backend))
  | count (v : View) (j : Job) (n : Ticket) (r : RunOutcome) :
      Transition now (some (.released j n r)) v (.goes (.counted j n r now))
        { v with kernel := { v.kernel with passId := v.kernel.passId + 1 } }
  | publish (v : View) (j : Job) (n : Ticket) (r : RunOutcome) (countedAt : Nat) :
      Transition now (some (.counted j n r countedAt)) v
        (.ends (.executed (j.report n r) n.readAt countedAt))
        { v with
          kernel := { v.kernel with lastReport := some (j.report n r) }
          delivered := v.delivered ++ List.replicate v.observers (j.report n r) }

/-- A part of the instance that an action leaves alone is the same after its outcome. -/
theorem Keeps.outcome (h : Action.Keeps f x) (i) : f (outcome x i).2 = f i := by
  unfold Concurrent.outcome
  cases ended : x i with
  | ok a j => exact h.of_ok ended
  | error e j => exact h.of_error ended

theorem outcome_ok (h : outcome x i = (.ok a, j)) : x i = .ok a j := by
  unfold outcome at h
  cases ended : x i with
  | ok a' j' => rw [ended] at h; cases h; rfl
  | error e j' => rw [ended] at h; cases h

theorem outcome_error (h : outcome x i = (.error e, j)) : x i = .error e j := by
  unfold outcome at h
  cases ended : x i with
  | ok a j' => rw [ended] at h; cases h
  | error e' j' => rw [ended] at h; cases h; rfl

/-- Compiling for a device keeps what threads see. -/
theorem compileFor_kept (devices) (i : Instance σ) :
    Ensures (compileFor devices) i (fun b j => view j = view i ∧ b.device ∈ devices)
      fun _ j => view j = view i :=
  (view_blind.compiles devices i).both (compileFor_device devices i)

theorem compile_ensures (now) (i : Instance σ) :
    Ensures compile i (fun d j => Transition now none (view i) (.ends (.compiled d)) (view j))
      fun _ j => view j = view i := by
  refine fromState ?_
  cases state : i.kernel.state with
  | executing b => exact thrown rfl
  | compiled b | idle b => exact .known _
  | uncompiled =>
    refine andThen (compileFor_kept _ i) fun b j compiled => ?_
    have same : view (j.setState (.compiled b)) = (view i).setState (.compiled b) :=
      congrArg (View.setState · (.compiled b)) compiled.1
    refine changed (ret ?_)
    rw [same]
    exact .compile state compiled.2

theorem compile_transition (now : Nat) (i : Instance σ) :
    Transition now none (view i) (start .compile i).1 (view (start .compile i).2) := by
  have ensures := compile_ensures now i
  unfold start outcome
  dsimp only
  cases ended : compile i with
  | ok d j => exact ensures.of_ok ended
  | error e j =>
    dsimp only
    rw [ensures.of_error ended]
    exact .refuse e

/-- Taking an instance, or not. -/
theorem acquire_ready (i : Instance σ) :
    Ensures acquire i
      (fun p j => Ready i.dispatcher.config p.1 i.kernel.state ∧
        view j = (view i).setState (.executing p.1))
      fun _ j => view j = view i := by
  refine fromState ?_
  cases i.kernel.state with
  | executing b => exact thrown rfl
  | compiled b => exact ⟨.compiled, rfl⟩
  | idle b => exact ⟨.idle, rfl⟩
  | uncompiled =>
    exact andThen (compileFor_kept _ i) fun b j compiled =>
      ⟨.uncompiled compiled.2, congrArg (View.setState · (.executing b)) compiled.1⟩

theorem prepare_ready (range : Range) (i : Instance σ) :
    Ensures (prepare range) i
      (fun j i' => Ready i.dispatcher.config j.backend i.kernel.state ∧
        view i' = (view i).setState (.executing j.backend))
      fun _ i' => view i' = view i := by
  refine fromState ?_
  have checked : ∀ {α ε : Type} (error : ε → KernelError) (r : Except ε α),
      Ensures (ofExcept error r : Action σ α) i (fun _ i' => i' = i)
        fun _ i' => view i' = view i := by
    intro α ε error r
    cases r with
    | ok a => exact ret rfl
    | error e => exact thrown rfl
  refine andThen (checked _ _) fun bound i' same => ?_
  subst same
  refine andThen (checked _ _) fun localSize i' same => ?_
  subst same
  exact andThen (acquire_ready _) fun p j ready => ret ready

theorem execute_transition (now : Nat) (range : Range) (i : Instance σ) :
    Transition now none (view i) (start (.execute range) i).1
      (view (start (.execute range) i).2) := by
  have ready := prepare_ready range i
  unfold start outcome
  dsimp only
  cases ended : prepare range i with
  | ok j i' =>
    obtain ⟨ready, same⟩ := ready.of_ok ended
    dsimp only
    rw [same]
    exact .take ready
  | error e i' =>
    dsimp only
    rw [ready.of_error ended]
    exact .refuse e

/-- A run keeps what threads see, and is worth a retry only if it was on the accelerator. -/
theorem run_kept (b : Backend) (l : Launch) (i : Instance σ) :
    view (outcome (run id b l) i).2 = view i := Keeps.outcome (view_blind.runs b l) i

theorem advance_transition (now : Nat) (stage : Stage) (i : Instance σ) :
    Transition now (some stage) (view i) (advance now stage i).1
      (view (advance now stage i).2) := by
  cases stage with
  | taken j => exact .number (view i) j
  | numbered j n =>
    have kept := run_kept j.backend (j.launch n) i
    unfold advance
    dsimp only
    rcases ended : outcome (run id j.backend (j.launch n)) i with ⟨_ | _, i'⟩
    · rw [ended] at kept
      dsimp only
      split
      · next retry =>
        dsimp only
        rw [kept]
        have retryable := (Bool.and_eq_true_iff.mp retry).1
        exact .fail n (run_retryable (outcome_error ended) retryable)
      · dsimp only
        rw [kept]
        exact .run (view i) j n _
    · rw [ended] at kept
      dsimp only
      rw [kept]
      exact .run (view i) j n (.ok ())
  | failed j n =>
    have kept := Keeps.outcome (view_blind.compiles i.dispatcher.config.afterAccelerator) i
    unfold advance
    dsimp only
    rcases ended : outcome (compileFor i.dispatcher.config.afterAccelerator) i with ⟨_ | _, i'⟩
    · rw [ended] at kept
      dsimp only
      rw [kept]
      exact .giveUp (view i) j n _
    · rw [ended] at kept
      dsimp only
      rw [kept]
      exact .recompile j n ((compileFor_device _ i).of_ok (outcome_ok ended))
  | retrying j n next =>
    have kept := run_kept next (j.launch n) i
    unfold advance
    dsimp only
    rw [kept]
    exact .rerun (view i) j n next _
  | ran j n r =>
    unfold advance
    dsimp only
    cases ended : r.outcome with
    | ok _ => exact .release (view i) j n ended
    | error e => exact .abandon (view i) j n ended
  | released j n r => exact .count (view i) j n r
  | counted j n r countedAt => exact .publish (view i) j n r countedAt

/-- Every step of a thread is a transition. -/
theorem Threads.move_transition (s : Threads σ ι) (t : ι) (c) :
    Transition s.time (s.stage t) (view s.inst) (s.move t c).1 (view (s.move t c).2) := by
  unfold move
  cases s.stage t with
  | some stage => exact advance_transition s.time stage s.inst
  | none =>
    cases c with
    | compile => exact compile_transition s.time s.inst
    | execute range => exact execute_transition s.time range s.inst

/-! ## A call that nobody interrupts -/

/-- What an execution does after its last run. -/
def finish (j : Job) (n : Ticket) (r : RunOutcome) : Action σ Unit := do
  release r.backend
  ofExcept id r.outcome
  countPass
  publish (j.report n r)

/-- The rest of an execution. -/
def resume : Stage → Action σ Unit
  | .taken j => do
    let passId ← readPassId
    finish j ⟨passId, 0⟩ (← runWithRetry id j.backend (j.launch ⟨passId, 0⟩))
  | .numbered j n => do finish j n (← runWithRetry id j.backend (j.launch n))
  | .failed j n => do
    match ← attempt (compileFor (← get).dispatcher.config.afterAccelerator) with
    | .error e => finish j n ⟨j.backend, false, .error e⟩
    | .ok next => finish j n ⟨next, true, ← attempt (run id next (j.launch n))⟩
  | .retrying j n next => do finish j n ⟨next, true, ← attempt (run id next (j.launch n))⟩
  | .ran j n r => finish j n r
  | .released j n r => do
    countPass
    publish (j.report n r)
  | .counted j n r _ => publish (j.report n r)

/-- How an execution ends with a reply. -/
def Reply.result (reply : Reply) (i : Instance σ) : EStateM.Result KernelError (Instance σ) Unit :=
  match reply with
  | failed e => .error e i
  | _ => .ok () i

/-- What is left of an execution after a step. -/
def Progress.result (p : Progress) (i : Instance σ) :
    EStateM.Result KernelError (Instance σ) Unit :=
  match p with
  | goes stage => resume stage i
  | ends reply => reply.result i

theorem attempt_eq (x : Action σ α) (i : Instance σ) :
    attempt x i = .ok (outcome x i).1 (outcome x i).2 := by
  unfold attempt outcome
  cases x i <;> rfl

/-- An execution takes the instance and then does the rest. -/
theorem execute_eq (range) :
    (execute id range : Action σ Unit) = prepare range >>= fun j => resume (.taken j) := by
  unfold execute prepare
  simp only [bind_assoc]
  rfl

theorem start_result (range : Range) (i : Instance σ) :
    execute id range i = (start (.execute range) i).1.result (start (.execute range) i).2 := by
  rw [execute_eq]
  unfold start outcome
  dsimp only
  cases ended : prepare range i with
  | ok j i' => exact (bind_of_ok ended).trans rfl
  | error e i' => exact bind_of_error ended _

/-- What is left of an execution is its next step and what is left then. -/
theorem advance_result (now : Nat) (stage : Stage) (i : Instance σ) :
    resume stage i = (advance now stage i).1.result (advance now stage i).2 := by
  cases stage with
  | taken j => rfl
  | numbered j n =>
    change (runWithRetry id j.backend (j.launch n) >>= finish j n) i = _
    unfold runWithRetry advance
    rw [bind_assoc, bind_of_ok (attempt_eq _ i)]
    dsimp only
    rcases outcome (run id j.backend (j.launch n)) i with ⟨e | _, i'⟩
    · dsimp only
      rw [bind_assoc, get_bind]
      split
      · rw [bind_assoc]
        refine Eq.trans ?_ (get_bind _ i').symm
        refine congrFun (bind_congr fun tried => ?_) i'
        cases tried with
        | error e => rfl
        | ok next => exact bind_assoc _ _ _
      · rfl
    · rfl
  | failed j n =>
    refine (bind_of_ok rfl).trans ((bind_of_ok (attempt_eq _ i)).trans ?_)
    unfold advance
    dsimp only
    rcases outcome (compileFor i.dispatcher.config.afterAccelerator) i with ⟨_ | _, i'⟩
    · rfl
    · rfl
  | retrying j n next => exact (bind_of_ok (attempt_eq _ i)).trans rfl
  | ran j n r =>
    obtain ⟨b, fellBack, _ | _⟩ := r
    · rfl
    · rfl
  | released j n r | counted j n r countedAt => rfl

/-- Up to `n` steps of an execution that nobody interrupts. -/
def proceed : Nat → Nat → Progress × Instance σ → Progress × Instance σ
  | n + 1, now, (.goes stage, i) => proceed n (now + 1) (advance now stage i)
  | _, _, p => p

/-- An execution that is not interrupted is the execution as it is defined. -/
theorem execute_proceeds (n now range) (i : Instance σ) :
    let p := proceed n now (start (.execute range) i)
    execute id range i = p.1.result p.2 := by
  have kept (p : Progress × Instance σ) :
      (proceed n now p).1.result (proceed n now p).2 = p.1.result p.2 := by
    fun_induction proceed n now p with
    | case1 n now stage i ih => exact ih.trans (advance_result now stage i).symm
    | case2 => rfl
  exact (start_result range i).trans (kept _).symm

end GridKernel.Concurrent
