import GridKernel.Proofs.Dispatch.Threads
import Mathlib.Data.Finset.Card

/-!
# The life cycle of an instance

Threads compile and execute one instance, in any interleaving. At most one execution has the
instance at a time, and it is `executing` exactly then. Its device is one of the configuration and
changes only when the accelerator fails, to a device that stands after it. When no execution is
under way, the number of the next pass is the number of executions that succeeded.
-/

namespace GridKernel.Concurrent

open GridKernel.Action

variable {σ ι : Type}

/-- The accelerator failed and a later device of the host took over. -/
structure Falls (config : Config) (b next : Backend) : Prop where
  accelerated : b.device = .accelerator
  host : next.device ≠ .accelerator
  later : [Device.accelerator, next.device].Sublist config.devices

/-- An execution that has the instance fits the backend that the instance records. -/
def Stage.Fits (config : Config) (b : Backend) : Stage → Prop
  | taken j => j.backend = b
  | numbered j _ => j.backend = b
  | failed j _ => j.backend = b ∧ b.device = .accelerator
  | retrying _ _ next => Falls config b next
  | ran _ _ r => r.backend = b ∨ Falls config b r.backend
  | released _ _ _ | counted _ _ _ _ => False

theorem Stage.none_holds (stage : Stage) (absent : none = some stage) : stage.holds = false :=
  nomatch absent

variable {b : Backend}

theorem Stage.Fits.holds {stage : Stage} (h : stage.Fits config b) : stage.holds = true := by
  cases stage with
  | released | counted => exact h.elim
  | _ => rfl

/-- Nobody has the instance, or one thread has it and it is `executing`. -/
inductive Held (config : Config) (stage : ι → Option Stage) : KernelState → Prop
  | free {state : KernelState} (ready : ∀ b, state ≠ .executing b)
      (nobody : ∀ t st, stage t = some st → st.holds = false) : Held config stage state
  | held {b : Backend} {t : ι} {st : Stage} (here : stage t = some st) (fits : st.Fits config b)
      (alone : ∀ t' st', t' ≠ t → stage t' = some st' → st'.holds = false) :
      Held config stage (.executing b)

namespace Held

variable {config : Config} {stage : ι → Option Stage} {t : ι} {st : Stage}
  (h : Held config stage state)
include h

/-- The thread that has the instance. -/
theorem holder (here : stage t = some st) (holds : st.holds = true) :
    ∃ b, state = .executing b ∧ st.Fits config b ∧
      ∀ t' st', t' ≠ t → stage t' = some st' → st'.holds = false := by
  cases h with
  | free ready nobody =>
    rw [nobody t st here] at holds
    cases holds
  | @held b t₀ st₀ here₀ fits alone =>
    by_cases same : t = t₀
    · subst same
      obtain rfl : st = st₀ := Option.some.inj (here.symm.trans here₀)
      exact ⟨b, rfl, fits, alone⟩
    · rw [alone t st same here] at holds
      cases holds

theorem nobody_of_ready (ready : ∀ b, state ≠ .executing b) :
    ∀ t st, stage t = some st → st.holds = false := by
  cases h with
  | free _ nobody => exact nobody
  | held => exact absurd rfl (ready _)

variable [DecidableEq ι]

/-- The thread that has the instance goes on with it. -/
theorem goes (here : stage t = some st) (holds : st.holds = true)
    {next : Stage} (fits : ∀ b, st.Fits config b → next.Fits config b) :
    Held config (Function.update stage t (some next)) state := by
  obtain ⟨b, rfl, fit, alone⟩ := h.holder here holds
  refine .held (t := t) (Function.update_self ..) (fits b fit) fun t' st' other here' => ?_
  rw [Function.update_of_ne other] at here'
  exact alone t' st' other here'

/-- The thread that has the instance gives it back. -/
theorem gives (here : stage t = some st) (holds : st.holds = true)
    (passive : ∀ st, next = some st → st.holds = false) (b) :
    Held config (Function.update stage t next) (.idle b) := by
  obtain ⟨-, rfl, -, alone⟩ := h.holder here holds
  refine .free nofun fun t' st' here' => ?_
  by_cases same : t' = t
  · subst same
    rw [Function.update_self] at here'
    exact passive st' here'
  · rw [Function.update_of_ne same] at here'
    exact alone t' st' same here'

/-- A thread that does not have the instance moves on without it. -/
theorem passes (before : ∀ st, stage t = some st → st.holds = false)
    (after : ∀ st, next = some st → st.holds = false) :
    Held config (Function.update stage t next) state := by
  cases h with
  | free ready nobody =>
    refine .free ready fun t' st' here' => ?_
    by_cases same : t' = t
    · subst same
      rw [Function.update_self] at here'
      exact after st' here'
    · rw [Function.update_of_ne same] at here'
      exact nobody t' st' here'
  | @held b t₀ st₀ here₀ fits alone =>
    have other : t₀ ≠ t := by
      rintro rfl
      have holds := before st₀ here₀
      rw [fits.holds] at holds
      cases holds
    refine .held (t := t₀) ((Function.update_of_ne other ..).trans here₀) fits ?_
    intro t' st' different here'
    by_cases same : t' = t
    · subst same
      rw [Function.update_self] at here'
      exact after st' here'
    · rw [Function.update_of_ne same] at here'
      exact alone t' st' different here'

/-- A thread takes an instance that nobody has. -/
theorem takes (ready : ∀ b, state ≠ .executing b) (fits : st.Fits config b) :
    Held config (Function.update stage t (some st)) (.executing b) := by
  refine .held (t := t) (Function.update_self ..) fits fun t' st' other here' => ?_
  rw [Function.update_of_ne other] at here'
  exact h.nobody_of_ready ready t' st' here'

end Held

/-! ## Passes -/

/-- The executions that have counted their pass and not yet returned. -/
def Pending (stage : ι → Option Stage) (pending : Finset ι) : Prop :=
  ∀ t, t ∈ pending ↔ ∃ j n r countedAt, stage t = some (.counted j n r countedAt)

/-- The number of the next pass is the number of executions that have counted theirs. -/
def Counted (stage : ι → Option Stage) (replies : List (ι × Reply)) (passId : Int32) : Prop :=
  ∃ pending : Finset ι, Pending stage pending ∧
    passId = .ofNat (replies.countP (·.2.isExecuted) + pending.card)

namespace Counted

variable [DecidableEq ι] {stage : ι → Option Stage} {replies : List (ι × Reply)} {passId : Int32}
  {t : ι} (h : Counted stage replies passId)
include h

/-- A step that counts no pass. -/
theorem other (before : ∀ j n r countedAt, stage t ≠ some (.counted j n r countedAt))
    (after : ∀ j n r countedAt, next ≠ some (.counted j n r countedAt))
    (failed : ∀ r ∈ reply, r.2.isExecuted = false) :
    Counted (Function.update stage t next) (replies ++ reply) passId := by
  obtain ⟨pending, same, counted⟩ := h
  refine ⟨pending, fun t' => ?_, ?_⟩
  · rw [same t']
    by_cases equal : t' = t
    · subst equal
      rw [Function.update_self]
      exact ⟨fun ⟨j, n, r, at', here⟩ => absurd here (before j n r at'),
        fun ⟨j, n, r, at', here⟩ => absurd here (after j n r at')⟩
    · rw [Function.update_of_ne equal]
  · have none : reply.countP (·.2.isExecuted) = 0 := by
      refine List.countP_eq_zero.mpr fun r member => ?_
      rw [failed r member]
      exact Bool.false_ne_true
    rw [List.countP_append, none, Nat.add_zero]
    exact counted

theorem count (before : ∀ j n r countedAt, stage t ≠ some (.counted j n r countedAt)) (j n r now) :
    Counted (Function.update stage t (some (.counted j n r now))) replies (passId + 1) := by
  obtain ⟨pending, same, counted⟩ := h
  have fresh : t ∉ pending := by
    rw [same t]
    rintro ⟨j, n, r, at', here⟩
    exact before j n r at' here
  refine ⟨insert t pending, fun t' => ?_, ?_⟩
  · rw [Finset.mem_insert, same t']
    by_cases equal : t' = t
    · subst equal
      rw [Function.update_self]
      exact ⟨fun _ => ⟨j, n, r, now, rfl⟩, fun _ => .inl rfl⟩
    · rw [Function.update_of_ne equal]
      exact ⟨fun member => member.resolve_left equal, .inr⟩
  · rw [Finset.card_insert_of_notMem fresh, counted, ← Nat.add_assoc]
    exact (Int32.ofNat_add _ 1).symm

theorem publish (here : stage t = some (.counted j n r countedAt)) (report readAt countedAt') :
    Counted (Function.update stage t none)
      (replies ++ [(t, .executed report readAt countedAt')]) passId := by
  obtain ⟨pending, same, counted⟩ := h
  have member : t ∈ pending := (same t).mpr ⟨j, n, r, countedAt, here⟩
  refine ⟨pending.erase t, fun t' => ?_, ?_⟩
  · rw [Finset.mem_erase, same t']
    by_cases equal : t' = t
    · subst equal
      rw [Function.update_self]
      simp
    · rw [Function.update_of_ne equal]
      exact ⟨And.right, fun kept => ⟨equal, kept⟩⟩
  · have one := Finset.card_erase_add_one member
    rw [counted, List.countP_append, ← one]
    congr 1
    simp only [List.countP_singleton, Reply.isExecuted, if_true]
    omega

end Counted

/-! ## Steps -/

/-- How the state of an instance may go on: it stays compiled, and on its device unless the
accelerator fails. -/
structure Onward (config : Config) (before after : KernelState) : Prop where
  compiled : before ≠ .uncompiled → after ≠ .uncompiled
  device : ∀ b b', before.backend? = some b → after.backend? = some b' →
    b'.device = b.device ∨ Falls config b b'

namespace Onward

variable {config : Config} {before : KernelState}

theorem refl (config state) : Onward config state state where
  compiled := id
  device b b' here here' := by
    obtain rfl : b = b' := Option.some.inj (here.symm.trans here')
    exact .inl rfl

theorem of_backend (same : after.backend? = before.backend?) (known : after ≠ .uncompiled) :
    Onward config before after where
  compiled _ := known
  device b b' here here' := by
    rw [same, here] at here'
    obtain rfl := Option.some.inj here'
    exact .inl rfl

theorem of_uncompiled : Onward config .uncompiled after := ⟨fun h => absurd rfl h, nofun⟩

theorem backend_of_compiled (compiled : before ≠ .uncompiled) : ∃ b, before.backend? = some b := by
  cases before with
  | uncompiled => exact absurd rfl compiled
  | compiled b | executing b | idle b => exact ⟨b, rfl⟩

theorem trans (first : Onward config before after) (second : Onward config after later) :
    Onward config before later where
  compiled known := second.compiled (first.compiled known)
  device b b'' here here'' := by
    have known : before ≠ .uncompiled := by
      rintro rfl
      cases here
    obtain ⟨b', here'⟩ := backend_of_compiled (first.compiled known)
    rcases first.device b b' here here' with same | falls
    · rcases second.device b' b'' here' here'' with same' | falls'
      · exact .inl (same'.trans same)
      · exact .inr ⟨same ▸ falls'.accelerated, falls'.host, falls'.later⟩
    · rcases second.device b' b'' here' here'' with same' | falls'
      · exact .inr ⟨falls.accelerated, same' ▸ falls.host, same' ▸ falls.later⟩
      · exact absurd falls'.accelerated falls.host

end Onward

/-- A device after the accelerator is one of the host. -/
theorem falls_of_later {config : Config} {next : Backend} (valid : config.validate = .ok ())
    (accelerated : b.device = .accelerator) (listed : b.device ∈ config.devices)
    (later : next.device ∈ config.afterAccelerator) : Falls config b next := by
  rw [accelerated] at listed
  obtain ⟨before, devices⟩ := Config.devices_eq listed
  refine ⟨accelerated, fun same => ?_, ?_⟩
  · rw [same] at later
    exact Config.not_mem_afterAccelerator valid listed later
  · rw [devices]
    exact ((List.singleton_sublist.mpr later).cons_cons _).trans (List.sublist_append_right _ _)

/-- What holds between the steps of the threads. -/
structure Consistent (config : Config) (v : View) (stage : ι → Option Stage)
    (replies : List (ι × Reply)) : Prop where
  settings : v.config = config
  held : Held config stage v.kernel.state
  listed : ∀ b, v.kernel.state.backend? = some b → b.device ∈ config.devices
  counted : Counted stage replies v.kernel.passId

namespace Consistent

variable {config : Config} {stage : ι → Option Stage} {replies : List (ι × Reply)} {t : ι}
  (h : Consistent config v stage replies)
include h

/-- The backend that an execution leaves behind. -/
theorem ran_fits (here : stage t = some (.ran j n r)) :
    ∃ b, v.kernel.state = .executing b ∧ (r.backend = b ∨ Falls config b r.backend) := by
  obtain ⟨b, executing, fits, -⟩ := h.held.holder here rfl
  exact ⟨b, executing, fits⟩

variable (moved : Transition now (stage t) v p v')
include moved

theorem onward :
    Onward config v.kernel.state v'.kernel.state := by
  have gives : ∀ {j n r}, stage t = some (.ran j n r) →
      Onward config v.kernel.state (.idle r.backend) := by
    intro j n r here
    obtain ⟨b, executing, fits⟩ := h.ran_fits here
    rw [executing]
    refine ⟨nofun, fun b₀ b' here here' => ?_⟩
    obtain rfl := Option.some.inj here
    obtain rfl := Option.some.inj here'
    exact fits.imp_left fun same => congrArg Backend.device same
  generalize here : stage t = at' at moved
  cases moved with
  | compile new member =>
    rw [new]
    exact .of_uncompiled
  | take ready =>
    rw [h.settings] at ready
    generalize v.kernel.state = state at ready
    cases ready with
    | uncompiled listed => exact .of_uncompiled
    | compiled | idle => exact .of_backend rfl nofun
  | release j n ended | abandon j n ended => exact gives here
  | refuse | known | number | run | fail | giveUp | recompile | rerun | count | publish =>
    exact .refl config _

theorem listed_step (b) (known : v'.kernel.state.backend? = some b) :
    b.device ∈ config.devices := by
  have gives : ∀ {j n r}, stage t = some (.ran j n r) → r.backend.device ∈ config.devices := by
    intro j n r here
    obtain ⟨b, executing, fits⟩ := h.ran_fits here
    rcases fits with same | falls
    · exact same ▸ h.listed b (by rw [executing]; rfl)
    · exact falls.later.subset (by simp)
  generalize here : stage t = at' at moved
  cases moved with
  | compile new member =>
    obtain rfl := Option.some.inj known
    exact h.settings ▸ member
  | take ready =>
    obtain rfl := Option.some.inj known
    have listed := h.listed
    rw [h.settings] at ready
    generalize v.kernel.state = state at ready listed
    cases ready with
    | uncompiled member => exact member
    | compiled | idle => exact listed _ rfl
  | release j n ended | abandon j n ended =>
    obtain rfl := Option.some.inj known
    exact gives here
  | refuse | known | number | run | fail | giveUp | recompile | rerun | count | publish =>
    exact h.listed b known

variable [DecidableEq ι]

theorem held_step (valid : config.validate = .ok ()) :
    Held config (Function.update stage t p.stage?) v'.kernel.state := by
  have held := h.held
  generalize here : stage t = at' at moved
  cases moved with
  | refuse e | known d => exact held.passes (by simp [here]) Stage.none_holds
  | compile new member =>
    have kept := held.passes (t := t) (by simp [here]) Stage.none_holds
    rw [new] at kept
    exact .free nofun (kept.nobody_of_ready nofun)
  | take ready =>
    refine held.takes (fun b executing => ?_) rfl
    rw [executing] at ready
    cases ready
  | number => exact held.goes here rfl fun _ fits => fits
  | run => exact held.goes here rfl fun _ fits => .inl fits
  | fail n accelerated => exact held.goes here rfl fun _ fits => ⟨fits, fits ▸ accelerated⟩
  | giveUp => exact held.goes here rfl fun _ fits => .inl fits.1
  | recompile j n later =>
    obtain ⟨b, executing, fits, -⟩ := held.holder here rfl
    have listed : b.device ∈ config.devices := h.listed b (by rw [executing]; rfl)
    refine held.goes here rfl fun b' fits' => ?_
    obtain rfl : b = b' := fits.1.symm.trans fits'.1
    exact falls_of_later valid fits.2 listed (h.settings ▸ later)
  | rerun => exact held.goes here rfl fun _ fits => .inr fits
  | release j n ended => exact held.gives here rfl (fun st same => by cases same; rfl) _
  | abandon j n ended => exact held.gives here rfl Stage.none_holds _
  | count =>
    exact held.passes (fun st same => by rw [here] at same; cases same; rfl)
      fun st same => by cases same; rfl
  | publish =>
    exact held.passes (fun st same => by rw [here] at same; cases same; rfl) Stage.none_holds

theorem counted_step :
    Counted (Function.update stage t p.stage?) (replies ++ (p.reply?.map (t, ·)).toList)
      v'.kernel.passId := by
  have counted := h.counted
  generalize here : stage t = at' at moved
  cases moved with
  | count v j n r =>
    have more := counted.count (t := t) (by simp [here]) j n r now
    rw [← List.append_nil replies] at more
    exact more
  | publish v j n r countedAt => exact counted.publish here _ _ _
  | refuse | known | compile | take | number | run | fail | giveUp | recompile | rerun | release
  | abandon =>
    refine counted.other (by simp [here]) (by simp [Progress.stage?]) ?_
    simp [Progress.reply?, Reply.isExecuted]

/-- What holds between steps is kept by each of them. -/
theorem step (valid : config.validate = .ok ()) :
    Consistent config v' (Function.update stage t p.stage?)
      (replies ++ (p.reply?.map (t, ·)).toList) where
  settings := by
    have same := h.settings
    generalize stage t = at' at moved
    cases moved <;> exact same
  held := h.held_step moved valid
  listed := h.listed_step moved
  counted := h.counted_step moved

end Consistent

/-! ## Runs -/

/-- An execution that finds the instance taken changes nothing. It is told so, unless its own
arguments are refused first. -/
theorem start_busy (executing : i.kernel.state = .executing b) (range) :
    ∃ e, start (.execute range) i = (.ends (.failed e), i) ∧
      ∀ bound sizes, i.kernel.bound = .ok bound →
        range.localSizes i.dispatcher.config.maxGroupSize = .ok sizes →
        e = .busy i.kernel.descriptor.name := by
  have busy : acquire i = .error (.busy i.kernel.descriptor.name) i := by
    refine (bind_of_ok rfl).trans ?_
    rw [executing]
    rfl
  have refused : ∀ {e}, prepare range i = .error e i →
      start (.execute range) i = (.ends (.failed e), i) := by
    intro e failed
    unfold start outcome
    dsimp only
    rw [failed]
  cases bound : i.kernel.bound with
  | error fault =>
    refine ⟨.binding fault, refused ((bind_of_ok rfl).trans ?_), nofun⟩
    rw [bound]
    rfl
  | ok bound' =>
    cases sizes : range.localSizes i.dispatcher.config.maxGroupSize with
    | error fault =>
      refine ⟨.range fault, refused ((bind_of_ok rfl).trans ?_), nofun⟩
      rw [bound, sizes]
      rfl
    | ok sizes' =>
      refine ⟨_, refused ((bind_of_ok rfl).trans ?_), fun _ _ _ _ => rfl⟩
      rw [bound, sizes]
      exact (bind_of_ok rfl).trans ((bind_of_ok rfl).trans (bind_of_error busy _))

namespace Threads

/-- What holds between the steps of the threads. -/
def Ordered (config : Config) (s : Threads σ ι) : Prop :=
  Consistent config (view s.inst) s.stage s.replies

variable {s : Threads σ ι}

/-- The thread is in an execution that has the instance. -/
def Holds (s : Threads σ ι) (t : ι) : Prop := ∃ st, s.stage t = some st ∧ st.holds = true

/-- At most one thread has the instance. -/
theorem Ordered.holder_unique (h : Ordered config s) (holds : s.Holds t) (holds' : s.Holds t') :
    t = t' := by
  obtain ⟨st, here, holds⟩ := holds
  obtain ⟨st', here', holds'⟩ := holds'
  obtain ⟨b, -, -, alone⟩ := h.held.holder here holds
  by_contra different
  rw [alone t' st' (Ne.symm different) here'] at holds'
  cases holds'

theorem Ordered.executing_iff (h : Ordered config s) :
    (∃ b, s.inst.kernel.state = .executing b) ↔ ∃ t, s.Holds t := by
  constructor
  · rintro ⟨b, executing⟩
    have held := h.held
    rw [show (view s.inst).kernel.state = .executing b from executing] at held
    cases held with
    | free ready _ => exact absurd rfl (ready b)
    | held here fits _ => exact ⟨_, _, here, fits.holds⟩
  · rintro ⟨t, st, here, holds⟩
    obtain ⟨b, executing, -⟩ := h.held.holder here holds
    exact ⟨b, executing⟩

theorem Ordered.initial (fresh : i.kernel.state = .uncompiled) (unused : i.kernel.passId = 0) :
    Ordered i.dispatcher.config (initial i : Threads σ ι) where
  settings := rfl
  held := by
    refine .free (fun b executing => ?_) fun _ => Stage.none_holds
    change i.kernel.state = _ at executing
    rw [fresh] at executing
    cases executing
  listed b known := by
    change i.kernel.state.backend? = _ at known
    rw [fresh] at known
    cases known
  counted := ⟨∅, fun t => by simp [Threads.initial], unused⟩

/-- Without an execution under way the instance is free and all passes have been reported. -/
theorem Ordered.at_rest (h : Ordered config s) (rest : ∀ t, s.stage t = none) :
    (∀ b, s.inst.kernel.state ≠ .executing b) ∧
      s.inst.kernel.passId = .ofNat (s.replies.countP (·.2.isExecuted)) := by
  constructor
  · intro b executing
    obtain ⟨t, st, here, -⟩ := h.executing_iff.mp ⟨b, executing⟩
    rw [rest t] at here
    cases here
  · obtain ⟨pending, same, counted⟩ := h.counted
    have none : pending = ∅ := by
      refine Finset.eq_empty_of_forall_notMem fun t member => ?_
      obtain ⟨j, n, r, countedAt, here⟩ := (same t).mp member
      rw [rest t] at here
      cases here
    rw [none, Finset.card_empty, Nat.add_zero] at counted
    exact counted

variable [DecidableEq ι]

theorem Ordered.step (h : Ordered config s) (valid : config.validate = .ok ()) (t : ι) (c) :
    Ordered config (s.step t c) := Consistent.step h (s.move_transition t c) valid

theorem Ordered.run (h : Ordered config s) (valid : config.validate = .ok ()) (schedule) :
    Ordered config (s.run schedule) :=
  run_induction h (fun _ t c kept => kept.step valid t c) schedule

/-- However the steps go on, the state does not go back. -/
theorem Ordered.onward (h : Ordered config s) (valid : config.validate = .ok ()) (schedule) :
    Onward config s.inst.kernel.state (s.run schedule).inst.kernel.state := by
  have both := run_induction
    (P := fun s' : Threads σ ι => Ordered config s' ∧
      Onward config s.inst.kernel.state s'.inst.kernel.state)
    ⟨h, .refl config _⟩ (fun s' t c kept =>
      ⟨kept.1.step valid t c, kept.2.trans (Consistent.onward kept.1 (s'.move_transition t c))⟩)
    schedule
  exact both.2

theorem step_busy (executing : s.inst.kernel.state = .executing b) (idle : s.stage t = none)
    (range) :
    ∃ e, s.step t (.execute range) =
        { s with time := s.time + 1, replies := s.replies ++ [(t, .failed e)] } ∧
      ∀ bound sizes, s.inst.kernel.bound = .ok bound →
        range.localSizes s.inst.dispatcher.config.maxGroupSize = .ok sizes →
        e = .busy s.inst.kernel.descriptor.name := by
  obtain ⟨e, refused, reason⟩ := start_busy executing range
  refine ⟨e, ?_, reason⟩
  have same : Function.update s.stage t none = s.stage := by
    rw [← idle]
    exact Function.update_eq_self t s.stage
  unfold step move
  rw [idle]
  dsimp only
  rw [refused]
  unfold settle
  dsimp only [Progress.stage?]
  rw [same]
  rfl

end Threads

open Threads in
/-- Threads compile and execute a new instance in any interleaving. At most one execution has the
instance, which is `executing` exactly then; an execution that finds it so is refused and changes
nothing. The instance stays compiled, on a device of the configuration that changes only from the
accelerator to a later device of the host. At rest the instance is free, and the number of the next
pass counts the executions that succeeded. -/
theorem threads_keep_life_cycle [DecidableEq ι] {i : Instance σ}
    (valid : i.dispatcher.config.validate = .ok ()) (fresh : i.kernel.state = .uncompiled)
    (unused : i.kernel.passId = 0) (schedule : List (ι × Call)) :
    let s := (initial i : Threads σ ι).run schedule
    let config := i.dispatcher.config
    (∀ t t', s.Holds t → s.Holds t' → t = t') ∧
    ((∃ b, s.inst.kernel.state = .executing b) ↔ ∃ t, s.Holds t) ∧
    (∀ b t range, s.inst.kernel.state = .executing b → s.stage t = none →
      ∃ e, s.step t (.execute range) =
          { s with time := s.time + 1, replies := s.replies ++ [(t, .failed e)] } ∧
        ∀ bound sizes, s.inst.kernel.bound = .ok bound →
          range.localSizes config.maxGroupSize = .ok sizes →
          e = .busy s.inst.kernel.descriptor.name) ∧
    (∀ d, s.inst.kernel.device? = some d → d ∈ config.devices) ∧
    (∀ later : List (ι × Call),
      (s.inst.kernel.state ≠ .uncompiled → (s.run later).inst.kernel.state ≠ .uncompiled) ∧
      ∀ d d', s.inst.kernel.device? = some d → (s.run later).inst.kernel.device? = some d' →
        d' ≠ d → d = .accelerator ∧ d' ≠ .accelerator ∧
          [Device.accelerator, d'].Sublist config.devices) ∧
    ((∀ t, s.stage t = none) →
      (∀ b, s.inst.kernel.state ≠ .executing b) ∧
        s.inst.kernel.passId = .ofNat (s.replies.countP (·.2.isExecuted))) := by
  intro s config
  have ordered : Ordered config s := (Ordered.initial fresh unused).run valid schedule
  refine ⟨fun _ _ => ordered.holder_unique, ordered.executing_iff, ?_, ?_, ?_, ordered.at_rest⟩
  · intro b t range executing idle
    obtain ⟨e, refused, reason⟩ := step_busy executing idle range
    have settings : s.inst.dispatcher.config = config := ordered.settings
    rw [settings] at reason
    exact ⟨e, refused, reason⟩
  · intro d known
    obtain ⟨b, backend, rfl⟩ := Option.map_eq_some_iff.mp known
    exact ordered.listed b backend
  · intro later
    have onward := ordered.onward valid later
    refine ⟨onward.compiled, fun d d' known known' changed => ?_⟩
    obtain ⟨b, backend, rfl⟩ := Option.map_eq_some_iff.mp known
    obtain ⟨b', backend', rfl⟩ := Option.map_eq_some_iff.mp known'
    rcases onward.device b b' backend backend' with same | falls
    · exact absurd same changed
    · exact ⟨falls.accelerated, falls.host, falls.later⟩

/-- A new instance that the accelerator builds and then fails. -/
def failingInstance : Instance Scripted :=
  { pairInstance with kernel := { pairInstance.kernel with passId := 0 } }

/-- One thread's execution falls back to the host, and the other thread is refused meanwhile. -/
def earlyCalls : List (Bool × Call) :=
  [false, false, true].map (·, .execute ⟨[1], none, by decide⟩)

/-- The other thread executes when the instance is free again, before the first one has returned. -/
def lateCalls : List (Bool × Call) :=
  [false, false, false, false, false, true, true, true, false, true, true, true].map
    (·, .execute ⟨[1], none, by decide⟩)

/-- The threads after some of their steps. -/
def contended (schedule : List (Bool × Call)) : Threads Scripted Bool :=
  (Threads.initial failingInstance).run schedule

theorem contended_life_cycle :
    failingInstance.dispatcher.config.validate = .ok () ∧
      failingInstance.kernel.state = .uncompiled ∧ failingInstance.kernel.passId = 0 ∧
      (contended earlyCalls).inst.kernel.device? = some .accelerator ∧
      (∃ t, (contended earlyCalls).Holds t) ∧
      (contended (earlyCalls ++ lateCalls)).inst.kernel.device? = some .pool ∧
      [Device.accelerator, .pool].Sublist failingInstance.dispatcher.config.devices ∧
      (contended (earlyCalls ++ lateCalls)).replies.map (fun r => (r.1, r.2.isExecuted)) =
        [(true, false), (false, true), (true, true)] ∧
      (contended (earlyCalls ++ lateCalls)).inst.kernel.passId = .ofNat 2 := by
  have valid : failingInstance.dispatcher.config.validate = .ok () := rfl
  have executing : (contended earlyCalls).inst.kernel.state = .executing (.accelerator 0) := by
    decide +kernel
  have device : (contended earlyCalls).inst.kernel.device? = some .accelerator := by
    decide +kernel
  have later : (contended (earlyCalls ++ lateCalls)).inst.kernel.device? = some .pool := by
    decide +kernel
  have replies : (contended (earlyCalls ++ lateCalls)).replies.map
      (fun r => (r.1, r.2.isExecuted)) = [(true, false), (false, true), (true, true)] := by
    decide +kernel
  have two : (contended (earlyCalls ++ lateCalls)).replies.countP (·.2.isExecuted) = 2 := by
    decide +kernel
  have returned : ∀ t, ((contended (earlyCalls ++ lateCalls)).stage t).isNone = true := by
    decide +kernel
  have first := threads_keep_life_cycle (ι := Bool) valid rfl rfl earlyCalls
  have last := threads_keep_life_cycle (ι := Bool) valid rfl rfl (earlyCalls ++ lateCalls)
  have held : ∃ t, (contended earlyCalls).Holds t := first.2.1.mp ⟨_, executing⟩
  have passes : (contended (earlyCalls ++ lateCalls)).inst.kernel.passId = .ofNat 2 := by
    rw [← two]
    exact (last.2.2.2.2.2 fun t => Option.isNone_iff_eq_none.mp (returned t)).2
  have goesOn : contended (earlyCalls ++ lateCalls) = (contended earlyCalls).run lateCalls :=
    Threads.run_append _ earlyCalls lateCalls
  have falls : [Device.accelerator, .pool].Sublist failingInstance.dispatcher.config.devices :=
    ((first.2.2.2.2.1 lateCalls).2 _ _ device (goesOn ▸ later) (by decide)).2.2
  exact ⟨valid, rfl, rfl, device, held, later, falls, replies, passes⟩

end GridKernel.Concurrent
