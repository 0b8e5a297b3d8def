import GridKernel.Proofs.Dispatch.Rollback
import GridKernel.Proofs.Launch.Races

/-!
# Falling back applies a kernel once

When the accelerator fails an execution, at whatever point, the kernel runs on a later device of
the configuration. What the accelerator did to memory is undone first, so the execution ends as if
the accelerator had not been in the configuration at all.
-/

namespace GridKernel

open List Ensures

/-! ## Devices of a valid configuration -/

variable {rest : List Device}

namespace Config

theorem nodup_of_repeated? {seen devices : List Device} (h : repeated? seen devices = none) :
    devices.Nodup ∧ ∀ d ∈ seen, d ∉ devices := by
  induction devices generalizing seen with
  | nil => exact ⟨.nil, fun _ _ => not_mem_nil⟩
  | cons d rest ih =>
    unfold repeated? at h
    split at h
    · cases h
    · rename_i fresh
      obtain ⟨nodup, apart⟩ := ih h
      refine ⟨nodup_cons.mpr ⟨apart d mem_cons_self, nodup⟩, fun d' member => ?_⟩
      rw [mem_cons, not_or]
      refine ⟨?_, apart d' (mem_cons_of_mem d member)⟩
      rintro rfl
      exact fresh (contains_iff_mem.mpr member)

variable {c : Config}

theorem nodup_of_validate (valid : c.validate = .ok ()) : c.devices.Nodup := by
  unfold validate at valid
  split at valid
  · cases valid
  · split at valid
    · cases valid
    · rename_i none
      exact (nodup_of_repeated? none).1

theorem devices_eq (member : .accelerator ∈ c.devices) :
    ∃ before, c.devices = before ++ .accelerator :: c.afterAccelerator := by
  unfold afterAccelerator
  split
  · rename_i i index
    obtain ⟨inside, here, -⟩ := idxOf?_eq_some_iff.mp index
    exact ⟨c.devices.take i, by rw [← here, getElem_cons_drop, take_append_drop]⟩
  · rename_i none
    exact absurd member (idxOf?_eq_none_iff.mp none)

/-- The accelerator stands only once in a valid configuration. -/
theorem not_mem_afterAccelerator (valid : c.validate = .ok ()) (member : .accelerator ∈ c.devices) :
    Device.accelerator ∉ c.afterAccelerator := by
  obtain ⟨before, devices⟩ := devices_eq member
  have nodup := nodup_of_validate valid
  rw [devices] at nodup
  exact (nodup_cons.mp (nodup_append.mp nodup).2.1).1

theorem afterAccelerator_of_head? (first : c.devices = .accelerator :: rest) :
    c.afterAccelerator = rest := by
  simp [afterAccelerator, first, idxOf?_cons]

end Config

variable {σ τ α β ε : Type}

variable {j : Instance σ} {program : ProgramId} {e : KernelError} {x : Action σ α}

namespace Action

open Instance

variable {i : Instance σ}

theorem attempt_of_ok (h : x i = .ok a j) : attempt x i = .ok (.ok a) j := by
  unfold attempt
  rw [h]

theorem attempt_of_error (h : x i = .error e j) : attempt x i = .ok (.error e) j := by
  unfold attempt
  rw [h]

/-! ## Settings -/

/-- The same configuration and host. -/
structure SameSettings (i j : Instance σ) : Prop where
  config : j.dispatcher.config = i.dispatcher.config
  host : j.dispatcher.host = i.dispatcher.host

/-- However the action ends, it leaves the settings alone. -/
def KeepsSettings (x : Action σ α) : Prop :=
  ∀ i, Ensures x i (fun _ j => SameSettings i j) fun _ j => SameSettings i j

/-- The settings as one part of an instance. -/
def settingsOf (i : Instance σ) : Config × Host := (i.dispatcher.config, i.dispatcher.host)

theorem settingsOf_blind : Blind (settingsOf : Instance σ → Config × Host) :=
  ⟨⟨fun _ _ => rfl, fun _ _ _ => rfl⟩, fun _ _ => rfl⟩

theorem KeepsSettings.of_keeps (h : Keeps settingsOf x) : KeepsSettings x :=
  fun i => (h i).imp (fun _ _ same => ⟨congrArg Prod.fst same, congrArg Prod.snd same⟩)
    fun _ _ same => ⟨congrArg Prod.fst same, congrArg Prod.snd same⟩

theorem acquire_keepsSettings : KeepsSettings (acquire : Action σ (Backend × Bool)) := by
  refine .of_keeps (.andThen .looks fun i => ?_)
  have taken : ∀ p : Backend × Bool, Keeps settingsOf (do
      modify (·.setState (.executing p.1))
      return (p.1, p.2) : Action σ (Backend × Bool)) :=
    fun p => .andThen (.changes fun _ => rfl) fun _ => .ret _
  cases i.kernel.state with
  | executing b => exact .thrown _
  | compiled b | idle b => exact taken (b, false)
  | uncompiled => exact .andThen (settingsOf_blind.compiles _) fun b => taken (b, true)

/-- While the instance executes, others leave it, the memory and the settings alone. -/
structure Undisturbed (meanwhile : Instance σ → Instance σ) : Prop where
  quiet : Quiet meanwhile
  settings : ∀ i, SameSettings i (meanwhile i)

variable {meanwhile : Instance σ → Instance σ} {l : Launch}

theorem runOnDevice_keepsSettings (undisturbed : Undisturbed meanwhile) (program) :
    KeepsSettings (runOnDevice meanwhile program l) := by
  have same : ∀ i, settingsOf (meanwhile i) = settingsOf i := fun i =>
    Prod.ext (undisturbed.settings i).config (undisturbed.settings i).host
  exact .of_keeps (settingsOf_blind.runs_on_device same program l)

/-! ## Failures of the accelerator -/

/-- What a run moves to the device before the launch. -/
def moved (i : Instance σ) (l : Launch) : List Descriptor.Transfer :=
  match i.dispatcher.config.transfer with
  | .implicit => l.descriptor.transfers l.bound
  | .explicit => []

/-- The accelerator fails what it is asked for. -/
def Refuses (ask : Accelerator σ → DeviceAction σ α) (i : Instance σ) : Prop :=
  ∃ e j, onDevice ask i = .error e j

/-- A run on the accelerator fails: in one of the uploads, in the launch, in one of the downloads,
or because one of the images that came back does not fit. What comes before that succeeds. -/
inductive DeviceFails (meanwhile : Instance σ → Instance σ) (program : ProgramId) (l : Launch)
    (i : Instance σ) : Prop
  | upload {before after : List Descriptor.Transfer} {t : Descriptor.Transfer} {j : Instance σ}
      (fields : moved i l = before ++ t :: after) (uploaded : uploadAll program before i = .ok () j)
      (refused : Refuses (·.upload program t.arg (t.bound.image j.memory)) j)
  | launch {j : Instance σ} (uploaded : uploadAll program (moved i l) i = .ok () j)
      (refused : Refuses (·.launch program
        (l.descriptor.launchArgs l.bound l.passId i.memory) l.range l.localSize) (meanwhile j))
  | download {before after : List Descriptor.Transfer} {t : Descriptor.Transfer}
      {images : List (Bound × List UInt8)} {j k n : Instance σ}
      (uploaded : uploadAll program (moved i l) i = .ok () j)
      (launched : onDevice (·.launch program
        (l.descriptor.launchArgs l.bound l.passId i.memory) l.range l.localSize) (meanwhile j) =
          .ok () k)
      (fields : (moved i l).filter (·.field.isWritten) = before ++ t :: after)
      (downloaded : downloadAll program before k = .ok images n)
      (refused : Refuses (·.download program t.arg) n)
  | image {before after : List (Bound × List UInt8)} {b : Bound} {bytes : List UInt8}
      {fault : ImageFault} {j k n n' : Instance σ}
      (uploaded : uploadAll program (moved i l) i = .ok () j)
      (launched : onDevice (·.launch program
        (l.descriptor.launchArgs l.bound l.passId i.memory) l.range l.localSize) (meanwhile j) =
          .ok () k)
      (downloaded : downloadAll program ((moved i l).filter (·.field.isWritten)) k =
        .ok (before ++ (b, bytes) :: after) n)
      (loaded : loadAll before n = .ok () n') (unfit : n'.memory.loadImage b bytes = .error fault)

/-- The action ends with a failure of the accelerator. -/
def Fails (x : Action σ α) (i : Instance σ) : Prop :=
  ∃ e j, x i = .error e j ∧ e.isRetryable = true

namespace Fails

theorem first (h : Fails x i) (f : α → Action σ β) : Fails (x >>= f) i := by
  obtain ⟨e, j, failed, retryable⟩ := h
  exact ⟨e, j, bind_of_error failed f, retryable⟩

theorem next (ran : x i = .ok a j) (h : Fails (f a) j) : Fails (x >>= f) i := by
  obtain ⟨e, k, failed, retryable⟩ := h
  exact ⟨e, k, (bind_of_ok ran).trans failed, retryable⟩

theorem of_refuses (h : Refuses ask i) : Fails (onDevice ask) i := by
  obtain ⟨e, j, refused⟩ := h
  refine ⟨e, j, refused, ?_⟩
  have reported : Ensures (onDevice ask) i (fun _ _ => True) fun e _ => e.isRetryable = true := by
    refine fromState ?_
    cases i.dispatcher.accelerator with
    | none => exact thrown rfl
    | some acc =>
      have stored : Ensures (set (i.setDevice (ask acc i.dispatcher.device).2) : Action σ PUnit) i
        (fun _ _ => True) fun e _ => e.isRetryable = true := trivial
      refine stored.andThen fun _ _ _ => ?_
      cases (ask acc i.dispatcher.device).1 with
      | ok a => exact ret trivial
      | error reason => exact thrown rfl
  exact reported.of_error refused

theorem loads (unfit : i.memory.loadImage b bytes = .error fault) : Fails (load b bytes) i := by
  refine next (x := get) rfl ?_
  dsimp only
  rw [unfit]
  exact ⟨_, _, rfl, rfl⟩

end Fails

/-- A chain of actions fails in the first of them or after it. -/
theorem bind_error (h : (x >>= f) i = .error e j) :
    x i = .error e j ∨ ∃ a k, x i = .ok a k ∧ f a k = .error e j := by
  cases ended : x i with
  | ok a k => exact .inr ⟨a, k, rfl, (bind_of_ok ended).symm.trans h⟩
  | error e' k =>
    rw [bind_of_error ended f] at h
    cases h
    exact .inl rfl

/-- Actions that are done in their order, with their results put together. -/
structure InOrder (one : α → Action σ γ) (join : α → γ → β → β) (all : List α → Action σ β) :
    Prop where
  nil : ∃ b, all [] = pure b
  cons : ∀ a rest, all (a :: rest) = do
    let c ← one a
    let b ← all rest
    return join a c b

namespace InOrder

variable {one : α → Action σ γ} {join : α → γ → β → β} {all : List α → Action σ β}
  (h : InOrder one join all)
include h

/-- One of them fails, after those before it. -/
theorem fails (ran : all before i = .ok b j) (failed : Fails (one a) j) (after) :
    Fails (all (before ++ a :: after)) i := by
  induction before generalizing i b with
  | nil =>
    obtain ⟨b', nothing⟩ := h.nil
    rw [nothing] at ran
    cases ran
    exact h.cons a after ▸ failed.first _
  | cons a' rest ih =>
    rw [h.cons] at ran
    obtain ⟨c, k, first, ran⟩ := bind_ok ran
    obtain ⟨b', n, ran, ended⟩ := bind_ok ran
    cases ended
    exact h.cons a' _ ▸ .next first ((ih ran).first _)

theorem of_error (failed : all as i = .error e j) :
    ∃ before a after b k, as = before ++ a :: after ∧ all before i = .ok b k ∧
      one a k = .error e j := by
  obtain ⟨b, nothing⟩ := h.nil
  induction as generalizing i with
  | nil =>
    rw [nothing] at failed
    cases failed
  | cons a rest ih =>
    rw [h.cons] at failed
    rcases bind_error failed with failed | ⟨c, k, first, failed⟩
    · exact ⟨[], a, rest, b, i, rfl, by rw [nothing]; rfl, failed⟩
    · rcases bind_error failed with failed | ⟨_, _, _, ended⟩
      · obtain ⟨before, a', after, b', n, rfl, ran, failed⟩ := ih failed
        refine ⟨a :: before, a', after, join a c b', n, rfl, ?_, failed⟩
        rw [h.cons]
        exact (bind_of_ok first).trans ((bind_of_ok ran).trans rfl)
      · cases ended

end InOrder

theorem uploadAll_inOrder (program) : InOrder (fun t => do
    let image := t.bound.image (← get).memory
    onDevice (·.upload program t.arg image)) (fun _ _ _ => ())
      (uploadAll program : _ → Action σ Unit) :=
  ⟨⟨(), rfl⟩, fun t rest => by simp [uploadAll]⟩

theorem downloadAll_inOrder (program) : InOrder (fun t => onDevice (·.download program t.arg))
    (fun t bytes images => (t.bound, bytes) :: images) (downloadAll program : _ → Action σ _) :=
  ⟨⟨[], rfl⟩, fun _ _ => rfl⟩

theorem loadAll_inOrder :
    InOrder (fun p => load p.1 p.2) (fun _ _ _ => ()) (loadAll : _ → Action σ Unit) :=
  ⟨⟨(), rfl⟩, fun p rest => by simp [loadAll]⟩

/-- Each of these failures ends the run. -/
theorem DeviceFails.fails (h : DeviceFails meanwhile program l i) :
    Fails (runOnDevice meanwhile program l) i := by
  refine Fails.next (j := i) rfl ?_
  change Fails (do
    uploadAll program (moved i l)
    modify meanwhile
    onDevice (·.launch program (l.descriptor.launchArgs l.bound l.passId i.memory) l.range
      l.localSize)
    let images ← downloadAll program ((moved i l).filter (·.field.isWritten))
    loadAll images) i
  cases h with
  | upload fields uploaded refused =>
    rw [fields]
    exact ((uploadAll_inOrder program).fails uploaded (.next rfl (.of_refuses refused)) _).first _
  | launch uploaded refused =>
    exact .next uploaded (.next rfl ((Fails.of_refuses refused).first _))
  | download uploaded launched fields downloaded refused =>
    refine .next uploaded (.next rfl (.next launched ?_))
    rw [fields]
    exact ((downloadAll_inOrder program).fails downloaded (.of_refuses refused) _).first _
  | image uploaded launched downloaded loaded unfit =>
    refine .next uploaded (.next rfl (.next launched (.next downloaded ?_)))
    exact loadAll_inOrder.fails loaded (.loads unfit) _

/-- There is no other way for a run on the accelerator to fail. -/
theorem DeviceFails.of_error (failed : runOnDevice meanwhile program l i = .error e j) :
    DeviceFails meanwhile program l i := by
  have failed : (do
    uploadAll program (moved i l)
    modify meanwhile
    onDevice (·.launch program (l.descriptor.launchArgs l.bound l.passId i.memory) l.range
      l.localSize)
    let images ← downloadAll program ((moved i l).filter (·.field.isWritten))
    loadAll images) i = .error e j := (bind_of_ok rfl).symm.trans failed
  rcases bind_error failed with failed | ⟨_, k, uploaded, failed⟩
  · obtain ⟨before, t, after, _, n, fields, ran, refused⟩ :=
      (uploadAll_inOrder program).of_error failed
    exact .upload fields ran ⟨e, j, (bind_of_ok rfl).symm.trans refused⟩
  have failed := (bind_of_ok rfl).symm.trans failed
  rcases bind_error failed with refused | ⟨_, n, launched, failed⟩
  · exact .launch uploaded ⟨e, j, refused⟩
  rcases bind_error failed with failed | ⟨images, n', downloaded, failed⟩
  · obtain ⟨before, t, after, images, n', fields, ran, refused⟩ :=
      (downloadAll_inOrder program).of_error failed
    exact .download uploaded launched fields ran ⟨e, j, refused⟩
  · obtain ⟨before, ⟨b, bytes⟩, after, _, n'', rfl, ran, failed⟩ := loadAll_inOrder.of_error failed
    have looked := (bind_of_ok rfl).symm.trans failed
    cases unfit : n''.memory.loadImage b bytes with
    | ok m =>
      simp only [unfit] at looked
      cases looked
    | error fault => exact .image uploaded launched downloaded ran unfit

/-! ## Runs on the host -/

end Action

namespace Launch

/-- How a run on the host ends, and the memory after it. -/
def hostEnd (l : Launch) (device : Device) (host : Host) (c : Config) (m : Memory) :
    Except KernelError Unit × Memory :=
  match l.onHost device host c m with
  | (m', none) => (.ok (), m')
  | (m', some fault) => (.error (.execution device (.stopped fault)),
      (Snapshot.capture l.descriptor l.bound m).restore m')

end Launch

namespace Action

open Instance

variable {meanwhile : Instance σ → Instance σ} {l : Launch} {device : Device} {i : Instance σ}

/-- How a run on the host ends from the state of an instance. -/
def hostEnd (device : Device) (l : Launch) (i : Instance σ) : Except KernelError Unit × Memory :=
  l.hostEnd device i.dispatcher.host i.dispatcher.config i.memory

theorem attempt_run_host (device : Device) (i : Instance σ) :
    attempt (run meanwhile (.host device) l) i =
      .ok (hostEnd device l i).1 { i with memory := (hostEnd device l i).2 } := by
  have ran := runOnHost_eq (l := l) device i
  unfold hostEnd Launch.hostEnd
  generalize l.onHost device i.dispatcher.host i.dispatcher.config i.memory = r at ran ⊢
  obtain ⟨m, _ | fault⟩ := r
  · refine attempt_of_ok ((bind_of_ok rfl).trans ?_)
    exact (bind_of_ok (attempt_of_ok ran)).trans rfl
  · refine attempt_of_error ((bind_of_ok rfl).trans ?_)
    exact (bind_of_ok (attempt_of_error ran)).trans rfl

theorem hostEnd_eq (memory : k.memory = i.memory) (settings : SameSettings i k) :
    hostEnd device l k = hostEnd device l i := by
  unfold hostEnd
  rw [memory, settings.config, settings.host]

theorem hostEnd_not_retryable (host : device ≠ .accelerator)
    (failed : (hostEnd device l i).1 = .error e) : e.isRetryable = false := by
  unfold hostEnd Launch.hostEnd at failed
  split at failed
  · cases failed
  · cases failed
    cases device with
    | accelerator => exact absurd rfl host
    | pool | sequential => rfl

/-- A failure on the host is final. -/
theorem runWithRetry_host (host : device ≠ .accelerator) (i) :
    ∃ r, runWithRetry meanwhile (.host device) l i =
        .ok r { i with memory := (hostEnd device l i).2 } ∧ r.outcome = (hostEnd device l i).1 := by
  have ran : attempt (run meanwhile (.host device) l) i = _ := attempt_run_host device i
  cases ended : (hostEnd device l i).1 with
  | ok _ =>
    rw [ended] at ran
    exact ⟨_, (bind_of_ok ran).trans rfl, rfl⟩
  | error e =>
    rw [ended] at ran
    have final := hostEnd_not_retryable host ended
    refine ⟨⟨.host device, false, .error e⟩, (bind_of_ok ran).trans ?_, rfl⟩
    refine (bind_of_ok rfl).trans ?_
    simp only [final, Bool.false_and]
    rfl

theorem selectFrom_host (host : device ≠ .accelerator) (d : Descriptor) (rest : List Device)
    (last : Option KernelError) (i : Instance σ) :
    selectFrom d (device :: rest) last i = .ok (.host device) i := by
  cases device with
  | accelerator => exact absurd rfl host
  | pool | sequential => rfl

theorem compileFor_host (host : device ≠ .accelerator) (rest)
    (checked : Typing.check i.kernel.descriptor = .ok ()) :
    compileFor (device :: rest) i = .ok (.host device) i := by
  refine (bind_of_ok rfl).trans ?_
  rw [checked]
  exact (bind_of_ok rfl).trans (selectFrom_host host _ rest none i)

/-- The accelerator's failure is undone, and the run on the next device starts where the first one
did. -/
theorem runWithRetry_fails (undisturbed : Undisturbed meanwhile) (ready : Launchable s l i.memory)
    (executing : i.kernel.state = .executing b) (policy : i.dispatcher.config.fallback = .fallBack)
    (later : i.dispatcher.config.afterAccelerator = device :: rest) (host : device ≠ .accelerator)
    (checked : Typing.check i.kernel.descriptor = .ok ())
    (fails : DeviceFails meanwhile program l i) :
    ∃ r j, runWithRetry meanwhile (.accelerator program) l i = .ok r j ∧
      r.outcome = (hostEnd device l i).1 ∧ j.memory = (hostEnd device l i).2 ∧
      j.kernel = i.kernel := by
  obtain ⟨e, j, failed, retryable⟩ := fails.fails
  obtain ⟨k, ran, settings⟩ : ∃ k, run meanwhile (.accelerator program) l i = .error e k ∧
      SameSettings i k := by
    refine ⟨_, (bind_of_ok rfl).trans ((bind_of_ok (attempt_of_error failed)).trans rfl), ?_⟩
    obtain ⟨config, host⟩ := (runOnDevice_keepsSettings undisturbed program i).of_error failed
    exact ⟨config, host⟩
  have started : Ensures (start meanwhile (.accelerator program) l) i _ _ :=
    runOnDevice_ensures undisturbed.quiet program executing
  have unmoved := (run_ensures ready started).of_error ran
  have next : attempt (compileFor k.dispatcher.config.afterAccelerator) k =
      .ok (.ok (.host device)) k := by
    rw [settings.config, later]
    exact attempt_of_ok (compileFor_host host rest (unmoved.kernel ▸ checked))
  have again : attempt (run meanwhile (.host device) l) k = _ := attempt_run_host device k
  rw [hostEnd_eq unmoved.memory settings] at again
  refine ⟨⟨.host device, true, (hostEnd device l i).1⟩,
    { k with memory := (hostEnd device l i).2 }, ?_, rfl, rfl, unmoved.kernel⟩
  refine (bind_of_ok (attempt_of_error ran)).trans ((bind_of_ok rfl).trans ?_)
  simp only [retryable, settings.config, policy, decide_true, Bool.and_true, if_true]
  rw [← settings.config]
  exact (bind_of_ok next).trans ((bind_of_ok again).trans rfl)

/-! ## Executions -/

/-- An execution ends with an outcome and leaves this memory. A pass that succeeds counts. -/
def Ends (x : Action σ Unit) (i : Instance σ) (outcome : Except KernelError Unit) (m : Memory)
    (passId : Int32) : Prop :=
  Ensures x i (fun _ j => outcome = .ok () ∧ j.memory = m ∧ j.kernel.passId = passId + 1)
    fun e j => outcome = .error e ∧ j.memory = m ∧ j.kernel.passId = passId

theorem Ends.next {passId : Int32} (ran : x i = .ok a j) (h : Ends (f a) j outcome m passId) :
    Ends (x >>= f) i outcome m passId := by
  unfold Ends Ensures
  rw [bind_of_ok ran]
  exact h

/-- Two executions end alike: both succeed or both fail for the same reason, and the memory and the
number of the next pass are the same. -/
inductive SameEnding : EStateM.Result KernelError (Instance σ) Unit →
    EStateM.Result KernelError (Instance τ) Unit → Prop
  | ok {i : Instance σ} {k : Instance τ} (memory : i.memory = k.memory)
      (passId : i.kernel.passId = k.kernel.passId) : SameEnding (.ok () i) (.ok () k)
  | error {e : KernelError} {i : Instance σ} {k : Instance τ} (memory : i.memory = k.memory)
      (passId : i.kernel.passId = k.kernel.passId) : SameEnding (.error e i) (.error e k)

theorem Ends.same {outcome : Except KernelError Unit} {m : Memory} {passId : Int32}
    {x : Action σ Unit} {y : Action τ Unit} {k : Instance τ} (h : Ends x i outcome m passId)
    (h' : Ends y k outcome m passId) : SameEnding (x i) (y k) := by
  unfold Ends Ensures at h h'
  generalize x i = ending at h
  generalize y k = ending' at h'
  cases ending with
  | ok _ j =>
    obtain ⟨rfl, memory, pass⟩ := h
    cases ending' with
    | ok _ n => exact .ok (memory.trans h'.2.1.symm) (pass.trans h'.2.2.symm)
    | error e n => cases h'.1
  | error e j =>
    obtain ⟨rfl, memory, pass⟩ := h
    cases ending' with
    | ok _ n => cases h'.1
    | error e' n =>
      obtain ⟨⟨⟩, memory', pass'⟩ := h'
      exact .error (memory.trans memory'.symm) (pass.trans pass'.symm)

variable {bound : List Bound} {range : Range}

/-- An execution ends as the run in it does. -/
theorem execute_ends (complete : i.kernel.bound = .ok bound)
    (sized : range.localSizes i.dispatcher.config.maxGroupSize = .ok size)
    (acquired : acquire i = .ok (b, compiled) j)
    (ran : runWithRetry meanwhile b ⟨i.kernel.descriptor, bound, range, size, j.kernel.passId⟩ j =
      .ok r k) :
    Ends (execute meanwhile range) i r.outcome k.memory k.kernel.passId := by
  refine .next rfl ?_
  rw [complete, sized]
  refine .next rfl (.next rfl (.next acquired (.next rfl (.next ran (.next rfl ?_)))))
  cases r.outcome with
  | ok _ | error e => exact ⟨rfl, rfl, rfl⟩

/-- The accelerator fails an execution: it cannot build the program, or the run on it fails. -/
inductive AcceleratorFails (meanwhile : Instance σ → Instance σ) (l : Launch) (i : Instance σ) :
    Prop
  | build {rest : List Device} {source : Source} (state : i.kernel.state = .uncompiled)
      (first : i.dispatcher.config.devices = .accelerator :: rest)
      (emits : i.kernel.descriptor.compile = .ok source)
      (unbuilt : i.dispatcher.programs.lookup source.text = none)
      (refused : Refuses (·.build source) i)
  | run {program : ProgramId} {compiled : Bool} {j : Instance σ}
      (acquired : acquire i = .ok (.accelerator program, compiled) j)
      (fails : DeviceFails meanwhile program l j)

/-- An instance like another one, on a dispatcher that has only the devices after the accelerator. If
it is compiled, then for the first of them. Each dispatcher has a pool of its own. -/
structure WithoutAccelerator (i : Instance σ) (k : Instance τ) : Prop where
  descriptor : k.kernel.descriptor = i.kernel.descriptor
  bindings : k.kernel.bindings = i.kernel.bindings
  passId : k.kernel.passId = i.kernel.passId
  memory : k.memory = i.memory
  config : k.dispatcher.config =
    { i.dispatcher.config with devices := i.dispatcher.config.afterAccelerator }
  steps : k.dispatcher.host.steps = i.dispatcher.host.steps
  parallelism : k.dispatcher.host.parallelism = i.dispatcher.host.parallelism
  state : k.kernel.state = .uncompiled ∨
    ∃ device, i.dispatcher.config.afterAccelerator.head? = some device ∧
      (k.kernel.state = .compiled (.host device) ∨ k.kernel.state = .idle (.host device))

/-- An instance on the host is taken for its first device. -/
theorem acquire_host (host : device ≠ .accelerator)
    (devices : i.dispatcher.config.devices = device :: rest)
    (checked : Typing.check i.kernel.descriptor = .ok ())
    (state : i.kernel.state = .uncompiled ∨ i.kernel.state = .compiled (.host device) ∨
      i.kernel.state = .idle (.host device)) :
    ∃ compiled, acquire i =
      .ok (.host device, compiled) (i.setState (.executing (.host device))) := by
  have start : acquire i = _ := bind_of_ok rfl
  rw [start]
  rcases state with state | state | state
  · rw [state, devices]
    exact ⟨true, (bind_of_ok (compileFor_host host rest checked)).trans rfl⟩
  · rw [state]
    exact ⟨false, rfl⟩
  · rw [state]
    exact ⟨false, rfl⟩

/-- A build that fails leaves the instance to the next device. -/
theorem acquire_unbuilt (host : device ≠ .accelerator)
    (devices : i.dispatcher.config.devices = .accelerator :: device :: rest)
    (policy : i.dispatcher.config.fallback = .fallBack)
    (checked : Typing.check i.kernel.descriptor = .ok ()) (state : i.kernel.state = .uncompiled)
    (emits : i.kernel.descriptor.compile = .ok source)
    (unbuilt : i.dispatcher.programs.lookup source.text = none)
    (refused : Refuses (·.build source) i) : ∃ j, acquire i = .ok (.host device, true) j := by
  have fails : Fails (program source) i := by
    refine .next rfl ?_
    rw [unbuilt]
    exact (Fails.of_refuses refused).first _
  obtain ⟨e, j, failed, -⟩ := fails
  obtain ⟨j, selected⟩ : ∃ j, selectFrom i.kernel.descriptor (.accelerator :: device :: rest) none i =
      .ok (.host device) j := by
    have looked : selectFrom i.kernel.descriptor (.accelerator :: device :: rest) none i = _ :=
      bind_of_ok rfl
    rw [looked]
    cases i.dispatcher.accelerator with
    | none => exact ⟨i, selectFrom_host host _ rest none i⟩
    | some acc =>
      simp only [Option.isNone_some, emits, policy]
      refine ⟨j, (bind_of_ok rfl).trans ((bind_of_ok (attempt_of_error failed)).trans ?_)⟩
      exact selectFrom_host host _ rest (some e) j
  have compiled : compileFor i.dispatcher.config.devices i = .ok (.host device) j := by
    refine (bind_of_ok rfl).trans ?_
    rw [checked, devices]
    exact (bind_of_ok rfl).trans selected
  have start : acquire i = _ := bind_of_ok rfl
  rw [start, state]
  exact ⟨_, (bind_of_ok compiled).trans rfl⟩

/-- An execution that is taken for the host ends with the run there. -/
theorem execute_on_host (meanwhile : Instance σ → Instance σ) (host : device ≠ .accelerator)
    (complete : i.kernel.bound = .ok bound)
    (sized : range.localSizes i.dispatcher.config.maxGroupSize = .ok size)
    (acquired : acquire i = .ok (.host device, compiled) j) :
    let ended := hostEnd device ⟨i.kernel.descriptor, bound, range, size, i.kernel.passId⟩ i
    Ends (execute meanwhile range) i ended.1 ended.2 i.kernel.passId := by
  intro ended
  obtain ⟨memory, kernel, -⟩ := (acquire_ensures i).of_ok acquired
  have settings := (acquire_keepsSettings i).of_ok acquired
  have passId : j.kernel.passId = i.kernel.passId := by rw [kernel]
  let launch : Launch := ⟨i.kernel.descriptor, bound, range, size, j.kernel.passId⟩
  obtain ⟨r, ran, outcome⟩ : ∃ r, runWithRetry meanwhile (.host device) launch j = .ok r _ ∧ _ :=
    runWithRetry_host host j
  have same : hostEnd device launch j = ended := by
    rw [hostEnd_eq memory settings]
    exact congrArg (fun p => hostEnd device ⟨_, bound, range, size, p⟩ i) passId
  have ends := execute_ends complete sized acquired ran
  rw [outcome, same] at ends
  exact passId ▸ ends

/-- On the host both run alike. -/
theorem WithoutAccelerator.hostEnd_eq {k : Instance τ} (direct : WithoutAccelerator i k)
    (alike : Pool.Alike l i.dispatcher.host.steps i.memory i.dispatcher.host.pool
      k.dispatcher.host.pool) : hostEnd device l k = hostEnd device l i := by
  have threads : k.dispatcher.config.threads = i.dispatcher.config.threads := by rw [direct.config]
  have ran : l.onHost device k.dispatcher.host k.dispatcher.config k.memory =
      l.onHost device i.dispatcher.host i.dispatcher.config i.memory := by
    unfold Launch.onHost Config.workers
    rw [direct.memory, direct.steps, direct.parallelism, threads]
    cases device with
    | pool => exact alike.runPooled_eq _
    | sequential | accelerator => rfl
  unfold hostEnd Launch.hostEnd
  rw [ran, direct.memory]

/-- Without the accelerator an execution ends with the run on the first of the other devices. -/
theorem WithoutAccelerator.ends (direct : WithoutAccelerator i k) (alone : Instance τ → Instance τ)
    (checked : Typing.check i.kernel.descriptor = .ok ())
    (after : i.dispatcher.config.afterAccelerator = device :: rest) (host : device ≠ .accelerator)
    (complete : i.kernel.bound = .ok bound)
    (sized : range.localSizes i.dispatcher.config.maxGroupSize = .ok size)
    (alike : Pool.Alike ⟨i.kernel.descriptor, bound, range, size, i.kernel.passId⟩
      i.dispatcher.host.steps i.memory i.dispatcher.host.pool k.dispatcher.host.pool) :
    let ended := hostEnd device ⟨i.kernel.descriptor, bound, range, size, i.kernel.passId⟩ i
    Ends (execute alone range) k ended.1 ended.2 i.kernel.passId := by
  intro ended
  have devices : k.dispatcher.config.devices = device :: rest := by rw [direct.config, ← after]
  have state : k.kernel.state = .uncompiled ∨ k.kernel.state = .compiled (.host device) ∨
      k.kernel.state = .idle (.host device) := by
    rcases direct.state with state | ⟨first, head, state⟩
    · exact .inl state
    · rw [after] at head
      cases head
      exact .inr state
  obtain ⟨compiled, acquired⟩ := acquire_host host devices (direct.descriptor ▸ checked) state
  have bound' : k.kernel.bound = .ok bound := by
    rw [← complete]
    unfold Kernel.bound
    rw [direct.descriptor, direct.bindings]
  have sized' : range.localSizes k.dispatcher.config.maxGroupSize = .ok size := by
    rw [direct.config, ← sized]
  have ends := execute_on_host alone host bound' sized' acquired
  rw [direct.descriptor, direct.passId, direct.hostEnd_eq alike] at ends
  exact ends

/-- An execution that the accelerator fails ends with the run on the device after it. -/
theorem AcceleratorFails.ends {s : Schema} (built : s.build = .ok i.kernel.descriptor)
    (checked : Typing.check i.kernel.descriptor = .ok ())
    (made : i.kernel.Made i.kernel.descriptor i.memory) (undisturbed : Undisturbed meanwhile)
    (policy : i.dispatcher.config.fallback = .fallBack)
    (after : i.dispatcher.config.afterAccelerator = device :: rest) (host : device ≠ .accelerator)
    (complete : i.kernel.bound = .ok bound)
    (sized : range.localSizes i.dispatcher.config.maxGroupSize = .ok size)
    (fails : AcceleratorFails meanwhile
      ⟨i.kernel.descriptor, bound, range, size, i.kernel.passId⟩ i) :
    let ended := hostEnd device ⟨i.kernel.descriptor, bound, range, size, i.kernel.passId⟩ i
    Ends (execute meanwhile range) i ended.1 ended.2 i.kernel.passId := by
  intro ended
  cases fails with
  | build state first emits unbuilt refused =>
    have devices := first.trans
      (congrArg _ ((Config.afterAccelerator_of_head? first).symm.trans after))
    obtain ⟨j, acquired⟩ :=
      acquire_unbuilt host devices policy checked state emits unbuilt refused
    exact execute_on_host meanwhile host complete sized acquired
  | run acquired failed =>
    rename_i program compiled j
    obtain ⟨memory, kernel, -⟩ := (acquire_ensures i).of_ok acquired
    have settings := (acquire_keepsSettings i).of_ok acquired
    have passId : j.kernel.passId = i.kernel.passId := by rw [kernel]
    have executing : j.kernel.state = .executing (.accelerator program) := by rw [kernel]
    have ready : Launchable s ⟨i.kernel.descriptor, bound, range, size, i.kernel.passId⟩
        j.memory := by
      rw [memory]
      exact ⟨built, fun _ _ member held => made.canonical complete member held⟩
    obtain ⟨r, n, ran, outcome, after', kept⟩ := runWithRetry_fails undisturbed ready executing
      (settings.config ▸ policy) (settings.config ▸ after) host
      (by rw [kernel]; exact checked) failed
    have ends := execute_ends complete sized acquired (passId ▸ ran)
    rw [outcome, after', kept, passId, hostEnd_eq memory settings] at ends
    exact ends

/-- An execution that the accelerator fails, at whatever point, ends as an execution does without the
accelerator, if the workers of the two pools take the same turns or the kernel has no races. -/
theorem fallback_applies_once {s : Schema} {d : Descriptor} {i : Instance σ} {k : Instance τ}
    {alone : Instance τ → Instance τ} {range : Range} {bound : List Bound} {size : Dim3}
    (built : s.build = .ok d) (checked : Typing.check d = .ok ())
    (made : i.kernel.Made d i.memory) (undisturbed : Undisturbed meanwhile)
    (valid : i.dispatcher.config.validate = .ok ())
    (policy : i.dispatcher.config.fallback = .fallBack)
    (listed : .accelerator ∈ i.dispatcher.config.devices)
    (later : i.dispatcher.config.afterAccelerator ≠ [])
    (complete : i.kernel.bound = .ok bound)
    (sized : range.localSizes i.dispatcher.config.maxGroupSize = .ok size)
    (fails : AcceleratorFails meanwhile ⟨d, bound, range, size, i.kernel.passId⟩ i)
    (direct : WithoutAccelerator i k)
    (alike : Pool.Alike ⟨d, bound, range, size, i.kernel.passId⟩ i.dispatcher.host.steps i.memory
      i.dispatcher.host.pool k.dispatcher.host.pool) :
    SameEnding (execute meanwhile range i) (execute alone range k) := by
  obtain ⟨device, rest, after⟩ := exists_cons_of_ne_nil later
  have host : device ≠ .accelerator := by
    rintro rfl
    exact Config.not_mem_afterAccelerator valid listed (after ▸ mem_cons_self)
  obtain rfl := made.descriptor
  have onDevice := fails.ends built checked made undisturbed policy after host complete sized
  have without := direct.ends alone checked after host complete sized alike
  exact onDevice.same without

/-- The accelerator fails the run, as far as this can be computed. -/
def deviceFails (program : ProgramId) (l : Launch) (i : Instance σ) : Bool :=
  match runOnDevice id program l i with
  | .ok _ _ => false
  | .error _ _ => true

/-- An instance that the accelerator has built. -/
def pairIdle : Instance Scripted := pairInstance.setState (.idle (.accelerator 0))

/-- The same kernel where only the host is configured. -/
def pairOnHost : Instance Scripted where
  kernel := pairInstance.kernel
  dispatcher :=
    { config := { devices := [.pool], fallback := .fallBack }
      device := {}
      host := { steps := 40, parallelism := 2 } }
  memory := pairInstance.memory

/-- The memory after an execution that succeeded, and the number of the next pass. -/
def passed? : EStateM.Result KernelError (Instance σ) Unit → Option (Memory × Int32)
  | .ok _ i => some (i.memory, i.kernel.passId)
  | .error _ _ => none

/-- The accelerator has overwritten both elements when the image of the second array turns out to be
short. Each element and the counter are written once all the same, and in whichever turns workers
take. -/
theorem short_image_falls_back :
    let range : Range := ⟨[1], none, by decide⟩
    let d := pairInstance.kernel.descriptor
    let launch : Launch := ⟨d, [.array 0, .array 0, .slots 0], range, ⟨1, 1, 1⟩, 5⟩
    AcceleratorFails id launch pairIdle ∧ WithoutAccelerator pairIdle pairOnHost ∧
      Pool.Alike launch 40 pairIdle.memory .onward .inOrder ∧
      SameEnding (execute id range pairIdle) (execute id range pairOnHost) ∧
      passed? (execute id range pairIdle) =
        some (⟨#[⟨.int, #[7, 8]⟩], #[⟨.int, .global, #[1]⟩]⟩, 6) := by
  intro range d launch
  have built : pairSchema.build = .ok d := rfl
  have made : pairIdle.kernel.Made d pairIdle.memory :=
    pairInstance_made.proceed rfl rfl (.refl _)
  have undisturbed : Undisturbed (id : Instance Scripted → Instance Scripted) :=
    ⟨fun _ _ _ => ⟨rfl, rfl, rfl⟩, fun _ => ⟨rfl, rfl⟩⟩
  have direct : WithoutAccelerator pairIdle pairOnHost :=
    ⟨rfl, rfl, rfl, rfl, rfl, rfl, rfl, .inl rfl⟩
  have fails : AcceleratorFails id launch pairIdle := by
    have failed : deviceFails 0 launch (pairIdle.setState (.executing (.accelerator 0))) = true := by
      decide +kernel
    unfold deviceFails at failed
    split at failed
    · cases failed
    · rename_i ended
      exact .run rfl (.of_error ended)
  have checked : Typing.check d = .ok () := rfl
  have valid : pairIdle.dispatcher.config.validate = .ok () := rfl
  have complete : pairIdle.kernel.bound = .ok [.array 0, .array 0, .slots 0] := rfl
  have sized : range.localSizes pairIdle.dispatcher.config.maxGroupSize = .ok ⟨1, 1, 1⟩ := rfl
  have alike : Pool.Alike launch 40 pairIdle.memory .onward .inOrder :=
    .raceFree Pool.onward_serial Pool.inOrder_serial (by decide +kernel) (by decide +kernel)
  refine ⟨fails, direct, alike, ?_, by decide +kernel⟩
  exact fallback_applies_once built checked made undisturbed valid rfl (by decide) (by decide)
    complete sized fails direct alike

end Action

end GridKernel
