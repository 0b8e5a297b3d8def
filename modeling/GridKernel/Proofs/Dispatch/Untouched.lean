import GridKernel.Dispatch.Execute
import GridKernel.Proofs.Ensures

/-!
# What the steps of an execution leave alone

Requests to the accelerator change its state, and a build also the programs that are kept; only
images that come back change memory. Each part of an instance that has nothing to do with these is
the same after a compilation and after the transfers of a run, however they end.
-/

namespace GridKernel.Action

open Instance

variable {σ α β ε γ : Type}

variable {x : Action σ α}

/-- An attempt tells how the action ended and keeps what it did. -/
theorem attempt_ensures (h : Ensures x i done stopped) :
    Ensures (attempt x) i (fun r j => match r with
      | .ok a => done a j
      | .error e => stopped e j) stopped' := by
  unfold Ensures at h ⊢
  unfold attempt
  cases ended : x i with
  | ok a j | error e j => simpa only [ended] using h

/-- However the action ends, it leaves a part of the instance alone. -/
def Keeps (f : Instance σ → γ) (x : Action σ α) : Prop :=
  ∀ i, Ensures x i (fun _ j => f j = f i) fun _ j => f j = f i

namespace Keeps

variable {f : Instance σ → γ}

theorem ret (a : α) : Keeps f (pure a : Action σ α) := fun _ => rfl

theorem thrown (e) : Keeps f (throw e : Action σ α) := fun _ => rfl

theorem looks : Keeps f (get : Action σ (Instance σ)) := fun _ => rfl

theorem changes (same : ∀ i, f (g i) = f i) : Keeps f (modify g : Action σ Unit) := same

theorem andThen (first : Keeps f x) (next : ∀ a, Keeps f (g a)) : Keeps f (x >>= g) := fun i =>
  Ensures.andThen (first i) fun a j before =>
    (next a j).imp (fun _ _ after => after.trans before) fun _ _ after => after.trans before

theorem lifted (error : ε → KernelError) (r) : Keeps f (ofExcept error r : Action σ α) := by
  cases r with
  | ok a => exact ret a
  | error e => exact thrown _

theorem attempted (h : Keeps f x) : Keeps f (attempt x) := fun i =>
  (attempt_ensures (h i)).mono fun r _ after => by cases r <;> exact after

theorem of_ok (h : Keeps f x) (ended : x i = .ok a j) : f j = f i := (h i).of_ok ended

theorem of_error (h : Keeps f x) (ended : x i = .error e j) : f j = f i := (h i).of_error ended

end Keeps

/-- A part of an instance that has nothing to do with the accelerator's state and the programs. -/
structure Steady (f : Instance σ → γ) : Prop where
  device : ∀ i s, f (i.setDevice s) = f i
  programs : ∀ i text id, f (i.remember text id) = f i

namespace Steady

variable {f : Instance σ → γ}

theorem asks (steady : Steady f) (ask : Accelerator σ → DeviceAction σ α) :
    Keeps f (onDevice ask) := by
  intro i
  refine Ensures.fromState ?_
  cases i.dispatcher.accelerator with
  | none => exact Keeps.thrown _ i
  | some acc =>
    have answered := Keeps.lifted (f := f)
      (fun reason => .execution .accelerator (.refused reason))
      (ask acc i.dispatcher.device).1 (i.setDevice (ask acc i.dispatcher.device).2)
    exact answered.imp (fun _ _ h => h.trans (steady.device i _))
      fun _ _ h => h.trans (steady.device i _)

theorem builds (steady : Steady f) (source) : Keeps f (program source : Action σ ProgramId) := by
  refine .andThen .looks fun i => ?_
  cases i.dispatcher.programs.lookup source.text with
  | some id => exact .ret id
  | none =>
    refine .andThen (steady.asks _) fun id => ?_
    exact .andThen (.changes fun i => steady.programs i _ _) fun _ => .ret id

theorem selects (steady : Steady f) (d devices last) :
    Keeps f (selectFrom d devices last : Action σ Backend) := by
  induction devices generalizing last with
  | nil => exact .thrown _
  | cons device rest ih =>
    cases device with
    | accelerator =>
      refine .andThen .looks fun i => ?_
      dsimp only
      split
      · exact ih last
      · refine .andThen (.lifted _ _) fun source => ?_
        refine .andThen (steady.builds source).attempted fun r => ?_
        cases r with
        | ok id => exact .ret _
        | error e =>
          dsimp only
          split
          · exact .thrown e
          · exact ih (some e)
    | pool | sequential => exact .ret _

theorem compiles (steady : Steady f) (devices) : Keeps f (compileFor devices : Action σ Backend) :=
  .andThen .looks fun _ => .andThen (.lifted _ _) fun _ => steady.selects _ devices none

theorem uploads (steady : Steady f) (program ts) :
    Keeps f (uploadAll program ts : Action σ Unit) := by
  induction ts with
  | nil => exact .ret ()
  | cons t rest ih => exact .andThen .looks fun _ => .andThen (steady.asks _) fun _ => ih

theorem downloads (steady : Steady f) (program ts) :
    Keeps f (downloadAll program ts : Action σ (List (Bound × List UInt8))) := by
  induction ts with
  | nil => exact .ret []
  | cons t rest ih => exact .andThen (steady.asks _) fun _ => .andThen ih fun _ => .ret _

end Steady

/-- Such a part that has nothing to do with memory either. -/
structure Blind (f : Instance σ → γ) : Prop extends Steady f where
  memory : ∀ i m, f { i with memory := m } = f i

namespace Blind

theorem stores (blind : Blind f) (m) : Keeps f (setMemory m : Action σ Unit) :=
  .changes fun i => blind.memory i m

theorem loads (blind : Blind f) (b bytes) : Keeps f (load b bytes : Action σ Unit) :=
  .andThen .looks fun _ => .andThen (.lifted _ _) fun m => blind.stores m

theorem loadsAll (blind : Blind f) (images) : Keeps f (loadAll images : Action σ Unit) := by
  induction images with
  | nil => exact .ret ()
  | cons p rest ih => exact .andThen (blind.loads p.1 p.2) fun _ => ih

theorem runs_on_device (blind : Blind f) (same : ∀ i, f (meanwhile i) = f i) (program l) :
    Keeps f (runOnDevice meanwhile program l : Action σ Unit) := by
  refine .andThen .looks fun _ => .andThen (blind.uploads program _) fun _ => ?_
  refine .andThen (.changes same) fun _ => .andThen (blind.asks _) fun _ => ?_
  exact .andThen (blind.downloads program _) fun _ => blind.loadsAll _

end Blind

end GridKernel.Action
