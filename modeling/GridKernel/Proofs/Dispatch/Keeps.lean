import GridKernel.Proofs.Dispatch.Fallback

/-!
# What runs and compilations leave alone

A run changes memory and the state of the accelerator, and a compilation the accelerator and the
programs built on it. Whatever else an instance has, they leave alone: its kernel, the settings of
its dispatcher, the observers and their reports.
-/

namespace GridKernel.Action

open Instance Ensures

variable {σ γ : Type}

namespace Blind

theorem runs_on_host (blind : Blind f) (device l) :
    Keeps f (runOnHost device l : Action σ Unit) := by
  intro i
  have ran := runOnHost_eq (l := l) device i
  unfold Ensures
  rw [ran]
  obtain ⟨m, _ | fault⟩ := l.onHost device i.dispatcher.host i.dispatcher.config i.memory
  · exact blind.memory i m
  · exact blind.memory i m

/-- A run, and the restoring after it. -/
theorem runs (blind : Blind f) (b l) : Keeps f (run id b l : Action σ Unit) := by
  refine .andThen .looks fun _ => .andThen (.attempted ?_) fun r => ?_
  · cases b with
    | accelerator program => exact blind.runs_on_device (fun _ => rfl) program l
    | host device => exact blind.runs_on_host device l
  · cases r with
    | ok _ => exact .ret ()
    | error e => exact .andThen .looks fun _ => .andThen (blind.stores _) fun _ => .thrown e

end Blind

/-! ## Where a kernel is compiled for and where runs fail -/

theorem selectFrom_device (d : Descriptor) (devices : List Device) (last : Option KernelError)
    (i : Instance σ) :
    Ensures (selectFrom d devices last) i (fun b _ => b.device ∈ devices) fun _ _ => True := by
  induction devices generalizing last i with
  | nil => exact thrown trivial
  | cons device rest ih =>
    have later : ∀ last i, Ensures (selectFrom d rest last) i
        (fun b _ => b.device ∈ device :: rest) fun _ _ => True :=
      fun last i => (ih last i).mono fun _ _ member => List.mem_cons_of_mem _ member
    cases device with
    | accelerator =>
      refine fromState ?_
      dsimp only
      split
      · exact later last i
      · refine andThen (anything _ _) fun source j _ => ?_
        refine andThen (anything _ _) fun r k _ => ?_
        cases r with
        | ok id => exact ret List.mem_cons_self
        | error e =>
          dsimp only
          split
          · exact thrown trivial
          · exact later (some e) k
    | pool | sequential => exact ret List.mem_cons_self

/-- A kernel is compiled for one of the devices that are tried. -/
theorem compileFor_device (devices : List Device) (i : Instance σ) :
    Ensures (compileFor devices) i (fun b _ => b.device ∈ devices) fun _ _ => True := by
  refine andThen (anything _ _) fun j _ _ => ?_
  exact andThen (anything _ _) fun _ k _ => selectFrom_device _ devices none k

/-- A failure is worth a retry only if it happened on the accelerator. -/
theorem run_retryable (failed : run id b l i = .error e j) (retryable : e.isRetryable = true) :
    b.device = .accelerator := by
  cases b with
  | accelerator program => rfl
  | host device =>
    have ended : attempt (run id (.host device) l) i = _ := attempt_run_host device i
    rw [attempt_of_error failed] at ended
    have reason : (hostEnd device l i).1 = .error e := (EStateM.Result.ok.inj ended).1.symm
    by_contra other
    have final := hostEnd_not_retryable other reason
    rw [retryable] at final
    cases final

end GridKernel.Action
