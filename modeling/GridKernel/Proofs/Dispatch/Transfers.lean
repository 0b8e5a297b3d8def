import GridKernel.Dispatch.Transfer
import GridKernel.Proofs.Dispatch.PassIds

/-!
# Explicit transfers beside executions

A thread moves a field of an instance while others compile and execute it. The transfer compiles the
instance in one section, which is refused while an execution has it, reads in a second section where
the instance is, and then asks the device. Others take any steps between the sections. An execution
that takes the instance between the first two makes the transfer succeed without moving anything.
-/

namespace GridKernel.Concurrent

open GridKernel.Action

variable {σ ι : Type}

/-! ## Transfers -/

/-- What a thread does beside others. -/
abbrev Shared (σ ι : Type) := EStateM KernelError (Threads σ ι)

/-- An action on the instance that no other thread interrupts. -/
def atomically (x : Action σ α) : Shared σ ι α := fun s =>
  match x s.inst with
  | .ok a i => .ok a { s with inst := i }
  | .error e i => .error e { s with inst := i }

theorem atomically_bind (x : Action σ α) (f : α → Action σ β) :
    (atomically (x >>= f) : Shared σ ι β) = atomically x >>= fun a => atomically (f a) := by
  funext s
  change _ = EStateM.bind (atomically x) _ s
  unfold EStateM.bind atomically
  cases ended : x s.inst with
  | ok a i => rw [bind_of_ok ended]
  | error e i => rw [bind_of_error ended]

theorem atomically_get (f : Instance σ → Action σ α) :
    (atomically (get >>= f) : Shared σ ι α) = get >>= fun s => atomically (f s.inst) := rfl

theorem atomically_ok {x : Action σ α} {s t : Threads σ ι} (ended : atomically x s = .ok a t) :
    x s.inst = .ok a t.inst ∧ t = { s with inst := t.inst } := by
  unfold atomically at ended
  split at ended
  · next did =>
    cases ended
    exact ⟨did, rfl⟩
  · cases ended

/-- Writes the image of a field to the device. -/
def send (program : ProgramId) (arg : Nat) (b : Bound) : Action σ Unit := do
  let image := b.image (← get).memory
  onDevice (·.upload program arg image)

inductive Way where
  | put
  | get

variable [DecidableEq ι]

/-- Other threads take steps. -/
def others (schedule : List (ι × Call)) : Shared σ ι Unit := modify (·.run schedule)

/-- A transfer, and the steps of others between its sections. -/
def transfer (way : Way) (name : String) (w₁ w₂ w₃ : List (ι × Call)) : Shared σ ι Unit := do
  let (k, f) ← atomically (ofExcept .binding ((← get).inst.kernel.field name))
  if (← get).inst.dispatcher.config.transfer = .implicit then return ()
  let _ ← atomically compile
  others w₁
  let kernel := (← get).inst.kernel
  match kernel.state.readyProgram? with
  | none => return ()
  | some program =>
    if !f.isTransferred then return ()
    match kernel.bindings[k]?.join with
    | none => throw (.binding (.notBound name))
    | some b =>
      match kernel.descriptor.argIndex? k with
      | none => throw (.binding (.noArgument name))
      | some arg =>
        others w₂
        match way with
        | .put => atomically (send program arg b)
        | .get =>
          let bytes ← atomically (onDevice (·.download program arg))
          others w₃
          atomically (load b bytes)

/-- A transfer that nobody interrupts finds what it moves as it is defined to. -/
theorem transfer_alone (move : ProgramId → Nat → Bound → Action σ Unit)
    (moves : ∀ program arg b, (match way with
      | .put => atomically (send program arg b)
      | .get => do
        let bytes ← atomically (onDevice (·.download program arg))
        atomically (load b bytes) : Shared σ ι Unit) = atomically (move program arg b)) :
    transfer way name [] [] [] = (atomically (do
      match ← transferTarget name with
      | none => return ()
      | some (program, arg, b) => move program arg b) : Shared σ ι Unit) := by
  unfold transfer transferTarget explicitProgram
  simp only [bind_assoc, atomically_get]
  refine bind_congr fun s => ?_
  rw [atomically_bind]
  refine bind_congr fun p => ?_
  rw [atomically_get]
  refine bind_congr fun s => ?_
  split
  · rfl
  · simp only [bind_assoc]
    rw [atomically_bind]
    refine bind_congr fun _ => funext fun s => ?_
    have still : (others [] : Shared σ ι Unit) = pure () := rfl
    simp only [still, pure_bind, get_bind, atomically_get]
    cases s.inst.kernel.state.readyProgram? with
    | none => rfl
    | some program =>
      cases p.2.isTransferred with
      | false => rfl
      | true =>
        simp only [get_bind, Bool.not_true, Bool.false_eq_true, if_false, bind_assoc, atomically_get]
        cases s.inst.kernel.bindings[p.1]?.join with
        | none => rfl
        | some b =>
          cases s.inst.kernel.descriptor.argIndex? p.1 with
          | none => rfl
          | some arg => exact congrFun (moves program arg b) s

theorem transfer_put (name) :
    transfer .put name [] [] [] = (atomically (upload name) : Shared σ ι Unit) :=
  transfer_alone send fun _ _ _ => rfl

theorem transfer_get (name) :
    transfer .get name [] [] [] = (atomically (download name) : Shared σ ι Unit) :=
  transfer_alone (fun program arg b => onDevice (·.download program arg) >>= load b)
    fun _ _ _ => (atomically_bind _ _).symm

/-! ## What other threads do -/

theorem Transition.kept (h : Transition now stage v p v') :
    v'.kernel.bindings = v.kernel.bindings ∧
      (v.kernel.state ≠ .uncompiled → v'.kernel.state ≠ .uncompiled) := by
  cases h <;> refine ⟨rfl, ?_⟩ <;> first | exact id | simp [View.setState]

/-- A compilation that succeeds leaves the instance compiled and free. -/
theorem compile_ready (i : Instance σ) :
    Ensures compile i (fun _ j => j.kernel.state ≠ .uncompiled ∧
      (∀ b, j.kernel.state ≠ .executing b) ∧ j.kernel.bindings = i.kernel.bindings)
      fun _ _ => True := by
  refine Ensures.fromState ?_
  cases state : i.kernel.state with
  | executing b => exact Ensures.thrown trivial
  | compiled b | idle b => exact Ensures.ret (by simp [state])
  | uncompiled =>
    refine Ensures.andThen ((compileFor_kept _ i).imp (fun _ _ h => h) fun _ _ _ => trivial) ?_
    intro b j compiled
    exact ⟨by simp [Instance.setState], by simp [Instance.setState],
      congrArg (·.kernel.bindings) compiled.1⟩

/-- Only by taking it a thread makes the instance `executing`. -/
theorem Transition.takes (h : Transition now stage v p v')
    (free : ∀ b, v.kernel.state ≠ .executing b) (busy : v'.kernel.state = .executing b) :
    stage = none ∧ ∃ j, p = .goes (.taken j) := by
  cases h with
  | take => exact ⟨rfl, _, rfl⟩
  | compile | release | abandon => cases busy
  | _ => exact absurd busy (free b)

namespace Threads

theorem step_takes {s : Threads σ ι} (free : ∀ b, s.inst.kernel.state ≠ .executing b)
    (busy : (s.step t c).inst.kernel.state = .executing b) : ∃ range, c = .execute range := by
  obtain ⟨idle, j, taken⟩ := (s.move_transition t c).takes free busy
  cases c with
  | execute range => exact ⟨range, rfl⟩
  | compile =>
    unfold move at taken
    rw [idle] at taken
    unfold start at taken
    dsimp only at taken
    split at taken <;> cases taken

/-- An execution takes the instance in one of the steps. -/
def TakenIn (s : Threads σ ι) (schedule : List (ι × Call)) : Prop :=
  ∃ first t range last, schedule = first ++ (t, .execute range) :: last ∧
    (∀ b, (s.run first).inst.kernel.state ≠ .executing b) ∧
    ∃ b, ((s.run first).step t (.execute range)).inst.kernel.state = .executing b

theorem run_takes {s : Threads σ ι} (free : ∀ b, s.inst.kernel.state ≠ .executing b)
    (busy : (s.run schedule).inst.kernel.state = .executing b) : s.TakenIn schedule := by
  induction schedule generalizing s with
  | nil => exact absurd busy (free b)
  | cons entry rest ih =>
    by_cases taken : ∃ b, (s.step entry.1 entry.2).inst.kernel.state = .executing b
    · obtain ⟨t, c⟩ := entry
      obtain ⟨range, rfl⟩ := step_takes free taken.choose_spec
      exact ⟨[], t, range, rest, rfl, free, taken⟩
    · obtain ⟨first, t, range, last, rfl, still⟩ := ih (not_exists.mp taken) busy
      exact ⟨entry :: first, t, range, last, rfl, still⟩

theorem run_keeps (s : Threads σ ι) (schedule) :
    (s.run schedule).inst.kernel.bindings = s.inst.kernel.bindings ∧
      (s.inst.kernel.state ≠ .uncompiled →
        (s.run schedule).inst.kernel.state ≠ .uncompiled) := by
  refine run_induction (P := fun s' => s'.inst.kernel.bindings = s.inst.kernel.bindings ∧
    (s.inst.kernel.state ≠ .uncompiled → s'.inst.kernel.state ≠ .uncompiled)) ⟨rfl, id⟩ ?_ schedule
  intro s' t c ⟨bindings, known⟩
  obtain ⟨bindings', known'⟩ := (s'.move_transition t c).kept
  exact ⟨bindings'.trans bindings, known' ∘ known⟩

end Threads

/-- A compiled instance that is not ready on the accelerator runs on the host, or is taken. -/
theorem not_ready {state : KernelState} (known : state ≠ .uncompiled)
    (away : state.readyProgram? = none) :
    (∃ d, state.backend? = some (.host d)) ∨ ∃ b, state = .executing b := by
  cases state with
  | uncompiled => exact absurd rfl known
  | executing b => exact .inr ⟨b, rfl⟩
  | compiled b | idle b =>
    cases b with
    | accelerator program => cases away
    | host d => exact .inl ⟨d, rfl⟩

/-- The field is moved: it is written to the device, or read there and, after steps of others,
loaded. -/
def Delivers (way : Way) (program : ProgramId) (arg : Nat) (b : Bound) (w₃ : List (ι × Call))
    (s t : Threads σ ι) : Prop :=
  match way with
  | .put => send program arg b s.inst = .ok () t.inst
  | .get => ∃ bytes i, onDevice (·.download program arg) s.inst = .ok bytes i ∧
      load b bytes ({ s with inst := i }.run w₃).inst = .ok () t.inst

/-- One thread moves a bound field in explicit mode while others compile and execute the instance.
If the transfer succeeds, the field was moved, unless the instance was on the host when it was read,
or an execution took it after the section that compiled. A transfer that finds the instance taken is
refused, and changes nothing. -/
theorem transfer_dropped_only_by_takeover {s : Threads σ ι}
    (explicit : s.inst.dispatcher.config.transfer = .explicit)
    (known : s.inst.kernel.field name = .ok (k, f)) (moves : f.isTransferred = true)
    (bound : s.inst.kernel.bindings[k]?.join = some b) (way w₁ w₂ w₃) :
    (∀ t, transfer way name w₁ w₂ w₃ s = .ok () t →
      ∃ d i, compile s.inst = .ok d i ∧
        let compiled := { s with inst := i }
        let read := compiled.run w₁
        (∃ program arg, read.inst.kernel.state.readyProgram? = some program ∧
          read.inst.kernel.descriptor.argIndex? k = some arg ∧
          Delivers way program arg b w₃ (read.run w₂) t) ∨
        t = read ∧ ((∃ d, read.inst.kernel.state.backend? = some (.host d)) ∨
          (∃ b, read.inst.kernel.state = .executing b) ∧ compiled.TakenIn w₁)) ∧
    ∀ b, s.inst.kernel.state = .executing b →
      transfer way name w₁ w₂ w₃ s = .error (.busy s.inst.kernel.descriptor.name) s := by
  have implicit : s.inst.dispatcher.config.transfer ≠ .implicit := by simp [explicit]
  have found : (atomically (ofExcept .binding (.ok (k, f))) : Shared σ ι _) s = .ok (k, f) s := rfl
  unfold transfer
  rw [get_bind, known, bind_of_ok found]
  dsimp only
  rw [get_bind, if_neg implicit]
  refine ⟨fun t ended => ?_, fun b busy => ?_⟩
  · obtain ⟨d, s₁, first, ended⟩ := bind_ok ended
    obtain ⟨compiled, same⟩ := atomically_ok first
    refine ⟨d, s₁.inst, compiled, ?_⟩
    rw [← same]
    obtain ⟨ready, free, bindings⟩ := (compile_ready s.inst).of_ok compiled
    obtain ⟨bindings', ready'⟩ := s₁.run_keeps w₁
    obtain ⟨_, s₂, ran, ended⟩ := bind_ok ended
    obtain rfl : s₁.run w₁ = s₂ := (EStateM.Result.ok.inj ran).2
    have bound' : (s₁.run w₁).inst.kernel.bindings[k]?.join = some b := by
      rw [bindings', bindings, bound]
    rw [get_bind] at ended
    simp only [moves, bound'] at ended
    cases away : (s₁.run w₁).inst.kernel.state.readyProgram? with
    | none =>
      rw [away] at ended
      obtain ⟨-, rfl⟩ := EStateM.Result.ok.inj ended
      refine .inr ⟨rfl, ?_⟩
      rcases not_ready (ready' ready) away with host | ⟨b, taken⟩
      · exact .inl host
      · exact .inr ⟨⟨b, taken⟩, Threads.run_takes free taken⟩
    | some program =>
      cases place : (s₁.run w₁).inst.kernel.descriptor.argIndex? k with
      | none =>
        rw [away, place] at ended
        cases ended
      | some arg =>
        rw [away, place] at ended
        refine .inl ⟨program, arg, rfl, rfl, ?_⟩
        obtain ⟨_, s₃, ran, ended⟩ := bind_ok ended
        obtain ⟨-, rfl⟩ := EStateM.Result.ok.inj ran
        cases way with
        | put => exact (atomically_ok ended).1
        | get =>
          obtain ⟨bytes, s₄, fetched, ended⟩ := bind_ok ended
          obtain ⟨fetched, same⟩ := atomically_ok fetched
          obtain ⟨_, s₅, ran, ended⟩ := bind_ok ended
          obtain ⟨-, rfl⟩ := EStateM.Result.ok.inj ran
          refine ⟨bytes, s₄.inst, fetched, ?_⟩
          rw [← same]
          exact (atomically_ok ended).1
  · have refused : compile s.inst = .error (.busy s.inst.kernel.descriptor.name) s.inst := by
      refine (bind_of_ok rfl).trans ?_
      rw [busy]
      rfl
    refine bind_of_error ?_ _
    unfold atomically
    rw [refused]

/-- Transfers are explicit, and the accelerator fails when it is asked to launch. -/
def explicitInstance : Instance Scripted :=
  { pairInstance with
    dispatcher :=
      { pairInstance.dispatcher with
        config := { pairInstance.dispatcher.config with transfer := .explicit }
        device := { script := { failLaunch := true } } } }

/-- Where the instance is after a call that succeeded, and the images on the device. -/
def succeeded? : EStateM.Result KernelError (Threads Scripted ι) α →
    Option (KernelState × List ((ProgramId × Nat) × List UInt8))
  | .ok _ t => some (t.inst.kernel.state, t.inst.dispatcher.device.images)
  | .error _ _ => none

theorem undisturbed_put_delivers :
    let s : Threads Scripted Bool := .initial explicitInstance
    ∃ t i program arg, transfer .put "left" [] [] [] s = .ok () t ∧
      Delivers .put program arg (.array 0) [] { s with inst := i } t := by
  intro s
  have ended : (succeeded? (transfer .put "left" [] [] [] s)).map (·.1) =
      some (.compiled (.accelerator 0)) := by decide +kernel
  have known : s.inst.kernel.field "left" = .ok (0, ⟨"left", .scalar .int, .array, .global,
    .readWrite⟩) := rfl
  have settled := (transfer_dropped_only_by_takeover rfl known rfl rfl .put [] [] []).1
  cases result : transfer .put "left" [] [] [] s with
  | error e t =>
    rw [result] at ended
    cases ended
  | ok _ t =>
    rw [result] at ended
    have state : t.inst.kernel.state = .compiled (.accelerator 0) := Option.some.inj ended
    obtain ⟨-, i, -, ⟨program, arg, -, -, delivered⟩ | ⟨rfl, dropped⟩⟩ := settled t result
    · exact ⟨t, i, program, arg, rfl, delivered⟩
    · rcases dropped with ⟨d, host⟩ | ⟨⟨b, taken⟩, -⟩
      · rw [state] at host
        cases host
      · cases state.symm.trans taken

/-- A put that is left alone writes the image. One that an execution overtakes succeeds without
writing it, on the accelerator, and so does one after the instance fell back to the host. -/
theorem overtaken_put_moves_nothing :
    let s : Threads Scripted Bool := .initial explicitInstance
    let image : List UInt8 := [3, 0, 0, 0, 4, 0, 0, 0]
    succeeded? (transfer .put "left" [] [] [] s) =
        some (.compiled (.accelerator 0), [((0, 0), image)]) ∧
      succeeded? (transfer .put "left" (executions [true]) [] [] s) =
        some (.executing (.accelerator 0), []) ∧
      succeeded? (transfer .put "left" [] [] [] (s.run (executions (.replicate 8 true)))) =
        some (.idle (.host .pool), []) := by
  intro s image
  refine ⟨?_, ?_, ?_⟩ <;> decide +kernel

end GridKernel.Concurrent
