import GridKernel.Proofs.Dispatch.Peers

/-!
# Calls of peers

Compilation, execution and explicit transfers, made on an instance beside two dispatchers, end alike
and leave the instance in the same situation.
-/

namespace GridKernel

open GridKernel.Action Instance Together

variable {σ α : Type} {acc : Accelerator σ} {model : ProgramModel acc} {h : Holding}
  {start i i' j j' : Instance σ} {source : Source}

/-! ## Compilation -/

/-- How the program for the kernel's text is found or built: it depends on the text alone whether
there is one in the end. -/
theorem Dispatcher.Cached.program_cases (cached : i.dispatcher.Cached model)
    (present : i.dispatcher.accelerator = some acc) {kernel : Descriptor}
    (emits : kernel.compile = .ok source) :
    (∃ reason j, model.build source.text = .error reason ∧
      i.dispatcher.programs.lookup source.text = none ∧
      program source i = .error (.execution .accelerator (.refused reason)) j ∧
      Ahead model kernel i.dispatcher j.dispatcher ∧
      j.dispatcher.programs.lookup source.text = none) ∨
    ∃ code id j, model.build source.text = .ok code ∧ program source i = .ok id j ∧
      Ahead model kernel i.dispatcher j.dispatcher ∧
      j.dispatcher.programs.lookup source.text = some id ∧
      (i.dispatcher.programs.lookup source.text ≠ none → j = i) ∧
      (i.dispatcher.programs.lookup source.text = none →
        j.dispatcher.held model source.text = some (code, fun _ => none)) := by
  cases found : i.dispatcher.programs.lookup source.text with
  | some id =>
    obtain ⟨code, -, -, built⟩ := cached.built found
    refine .inr ⟨code, id, i, built, ?_, .refl kernel cached, found, fun _ => rfl, nofun⟩
    unfold program
    refine (bind_of_ok rfl).trans ?_
    rw [found]
    rfl
  | none =>
    have asked : program source i = (do
        let id ← onDevice (·.build source)
        modify (·.remember source.text id)
        return id : Action σ ProgramId) i := by
      unfold program
      refine (bind_of_ok rfl).trans ?_
      rw [found]
    have answered : (onDevice (·.build source) : Action σ ProgramId) i =
        (ofExcept (fun reason => .execution .accelerator (.refused reason))
          (acc.build source i.dispatcher.device).1 : Action σ ProgramId)
          (i.setDevice (acc.build source i.dispatcher.device).2) := by
      refine (bind_of_ok rfl).trans ?_
      rw [present]
      rfl
    cases outcome : model.build source.text with
    | error reason =>
      rw [(model.refuses cached.sound outcome).1] at answered
      exact .inl ⟨reason, _, rfl, rfl, asked.trans (bind_of_error answered _),
        cached.refused outcome kernel, found⟩
    | ok code =>
      obtain ⟨id, answer, ahead, here, held⟩ := cached.added emits found outcome
      rw [answer] at answered
      exact .inr ⟨code, id, _, rfl, asked.trans ((bind_of_ok answered).trans rfl), ahead, here,
        fun some => absurd rfl some, fun _ => held⟩

namespace Peers

/-- The dispatchers go on, and the instance stays. -/
theorem proceed (peers : Peers model h start shared i i') (unmoved : Unmoved i j)
    (unmoved' : Unmoved i' j')
    (ahead : Dispatcher.Ahead model start.kernel.descriptor i.dispatcher j.dispatcher)
    (ahead' : Dispatcher.Ahead model start.kernel.descriptor i'.dispatcher j'.dispatcher)
    (agree : ∀ {source code mem code' mem'}, start.kernel.descriptor.compile = .ok source →
      j.dispatcher.held model source.text = some (code, mem) → j'.dispatcher.held model source.text
      = some (code', mem') → DeviceMemory.Agree after mem mem')
    (together : start.dispatcher.config.transfer = .explicit → ∀ {source},
      start.kernel.descriptor.compile = .ok source →
      (j.dispatcher.programs.lookup source.text = none ↔ j'.dispatcher.programs.lookup source.text =
      none)) :
    Peers model h start after j j' := by
  obtain ⟨kernel, memory, -⟩ := unmoved
  obtain ⟨kernel', memory', -⟩ := unmoved'
  exact {
    descriptor := kernel ▸ peers.descriptor
    descriptor' := kernel' ▸ peers.descriptor'
    bindings := by rw [kernel, kernel']; exact peers.bindings
    complete := kernel ▸ peers.complete
    state := by rw [kernel, kernel']; exact peers.state.mono ahead.kept ahead'.kept
    passId := by rw [kernel, kernel']; exact peers.passId
    lastReport := by rw [kernel, kernel']; exact peers.lastReport
    memory := by rw [memory, memory']; exact peers.memory
    serve := peers.serve.next ahead ahead' agree together }

end Peers

namespace Running

variable {b b' : Backend}

theorem builds (running : Backed model h start b b' i i')
    (present : i.dispatcher.accelerator = some acc)
    (emits : start.kernel.descriptor.compile = .ok source) :
    Together (fun id id' j j' => OnDevice model h start id id' start.dispatcher.lasting j j')
      (Backed model h start b b') (program source i) (program source i') := by
  obtain ⟨peers, backends⟩ := running
  have serve := peers.serve
  have only : ∀ {other}, start.kernel.descriptor.compile = .ok other → other = source :=
    fun translated' => Except.ok.inj (translated'.symm.trans emits)
  rcases serve.ahead.cached.program_cases present emits with
    ⟨reason, j, refused, -, ended, ahead, missing⟩ |
      ⟨code, id, j, accepted, ended, ahead, found, same, new⟩
  all_goals
    rcases serve.cached.program_cases (serve.accelerator_eq.trans present) emits with
      ⟨reason', j', refused', -, ended', ahead', missing'⟩ |
        ⟨code', id', j', accepted', ended', ahead', found', same', new'⟩
  · obtain rfl := Except.error.inj (refused'.symm.trans refused)
    rw [ended, ended']
    refine .error ⟨peers.proceed ((program_leaves source i).of_error ended)
      ((program_leaves source i').of_error ended') ahead ahead' ?_ ?_,
      backends.mono ahead.kept ahead'.kept⟩
    · intro other _ _ _ _ translated' held
      obtain rfl := only translated'
      rw [Dispatcher.Cached.held_eq_none missing] at held
      cases held
    · intro _ other translated'
      obtain rfl := only translated'
      rw [missing, missing']
  · rw [refused] at accepted'
    cases accepted'
  · rw [accepted] at refused'
    cases refused'
  · obtain rfl := Except.ok.inj (accepted'.symm.trans accepted)
    rw [ended, ended']
    refine .ok ⟨peers.proceed ((program_leaves source i).of_ok ended)
      ((program_leaves source i').of_ok ended') ahead ahead' ?_ ?_,
      .accelerator emits found found'⟩
    · intro other _ _ _ _ translated' held held' k lasting
      obtain rfl := only translated'
      -- Transfers are explicit, so either both had the program or neither had.
      have together := serve.together lasting emits
      by_cases missing : i.dispatcher.programs.lookup other.text = none
      · cases Option.some.inj (held.symm.trans (new missing))
        cases Option.some.inj (held'.symm.trans (new' (together.mp missing)))
        rfl
      · obtain rfl := same missing
        obtain rfl := same' fun missing' => missing (together.mpr missing')
        exact serve.agree emits held held' k lasting
    · intro _ other translated'
      obtain rfl := only translated'
      rw [found, found']
      exact ⟨nofun, nofun⟩

/-- Both kernels are compiled for the same device. -/
theorem selects (devices last) (running : Backed model h start b b' i i') :
    Together (Backed model h start) (Backed model h start b b')
      (selectFrom start.kernel.descriptor devices last i)
      (selectFrom start.kernel.descriptor devices last i') := by
  induction devices generalizing last i i' with
  | nil => exact .thrown running
  | cons device rest ih =>
    cases device with
    | pool | sequential => exact .ret ⟨running.peers, .host _⟩
    | accelerator =>
      have serve := running.peers.serve
      refine looked ?_
      rw [serve.accelerator_eq, serve.config, serve.config']
      cases configured : i.dispatcher.accelerator with
      | none => exact ih last running
      | some a =>
        obtain rfl := serve.ahead.cached.accelerator a configured
        cases emits : start.kernel.descriptor.compile with
        | error fault => exact .thrown running
        | ok source =>
          have built := running.builds configured emits
          refine known (andThen built.attempted fun r r' j j' outcomes => ?_)
          cases outcomes with
          | ok on => exact .ret on
          | @error e _ _ running =>
            dsimp only
            split
            · exact .thrown running
            · exact ih (some e) running

theorem compilesFor (devices) (running : Backed model h start b b' i i') :
    Together (Backed model h start) (Backed model h start b b')
      (compileFor devices i) (compileFor devices i') := by
  refine looked ?_
  rw [running.peers.descriptor, running.peers.descriptor']
  refine andThen (lifted _ _ running) ?_
  rintro _ _ j j' ⟨-, -, running⟩
  exact running.selects devices none

end Running

namespace Peers

/-- An instance without a backend may be compiled. -/
theorem compilesFor (devices) (peers : Resting model h start i i') :
    Together (Backed model h start) (Resting model h start)
      (compileFor devices i) (compileFor devices i') :=
  (Running.compilesFor devices ⟨peers, .host .sequential⟩).imp (fun _ _ _ _ running => running)
    fun _ _ running => running.peers

theorem compiles (peers : Resting model h start i i') :
    Answers (Resting model h start) (compile i) (compile i') := by
  have states := peers.state
  refine looked ?_
  rw [peers.descriptor, peers.descriptor', peers.serve.config, peers.serve.config']
  generalize i.kernel.state = s at states ⊢
  generalize i'.kernel.state = s' at states ⊢
  cases states with
  | executing _ => exact .thrown peers
  | compiled backends | idle backends => exact .ret ⟨backends.device_eq, peers⟩
  | uncompiled =>
    refine andThen (peers.compilesFor _) ?_
    rintro b b' j j' ⟨peers, backends⟩
    exact changed (.ret ⟨backends.device_eq, peers.setState (.compiled backends)⟩)

theorem acquires (peers : Resting model h start i i') :
    Together (fun p p' j j' => p'.2 = p.2 ∧ Backed model h start p.1 p'.1 j j')
      (Resting model h start) (acquire i) (acquire i') := by
  have states := peers.state
  refine looked ?_
  rw [peers.descriptor, peers.descriptor', peers.serve.config, peers.serve.config']
  generalize i.kernel.state = s at states ⊢
  generalize i'.kernel.state = s' at states ⊢
  cases states with
  | executing _ => exact .thrown peers
  | compiled backends | idle backends =>
    exact .ok ⟨rfl, peers.setState (.executing backends), backends⟩
  | uncompiled =>
    refine andThen (peers.compilesFor _) ?_
    rintro b b' j j' ⟨peers, backends⟩
    exact .ok ⟨rfl, peers.setState (.executing backends), backends⟩

end Peers

/-! ## Runs -/

namespace Running

variable {b b' : Backend}

theorem runs_on_host (running : Running model h start b b' shared i i')
    (mates : Launch.Mates h l l') (device) :
    Steady (Running model h start b b' shared) (runOnHost device l i) (runOnHost device l' i') := by
  have serve := running.peers.serve
  have ended := mates.onHost serve.impartial running.peers.memory device start.dispatcher.config
  rw [runOnHost_eq, runOnHost_eq, serve.host, serve.host', serve.config, serve.config']
  generalize l.onHost device _ _ _ = r at ended ⊢
  generalize l'.onHost device _ _ _ = r' at ended ⊢
  obtain ⟨m, _⟩ := r
  obtain ⟨m', fault⟩ := r'
  obtain ⟨alike, rfl⟩ := ended
  cases fault with
  | none => exact .ok (running.setMemory alike)
  | some fault => exact .error (running.setMemory alike)

theorem starts (mates : Launch.Mates h l l')
    (complete : l.bound.length = l.descriptor.fields.length) :
    Backed model h start b b' i i' →
    Steady (Backed model h start b b') ((match b with
        | .accelerator program => runOnDevice (fun i => i) program l
        | .host device => runOnHost device l : Action σ Unit) i)
      ((match b' with
        | .accelerator program => runOnDevice (fun i => i) program l'
        | .host device => runOnHost device l' : Action σ Unit) i') := by
  rintro ⟨peers, backends⟩
  cases backends with
  | host device => exact runs_on_host ⟨peers, .host device⟩ mates device
  | accelerator emits found found' =>
    exact OnDevice.runs ⟨peers, .accelerator emits found found'⟩ mates complete

theorem runs (running : Backed model h start b b' i i')
    (mates : Launch.Mates h l l') (complete : l.bound.length = l.descriptor.fields.length) :
    Steady (Backed model h start b b') (run (fun i => i) b l i) (run (fun i => i) b' l' i') := by
  have before := running.peers.memory
  refine looked ?_
  refine andThen (starts mates complete running).attempted fun r r' j j' outcomes => ?_
  cases outcomes with
  | ok running => exact .ret running
  | error running =>
    refine looked (changed (.thrown (running.setMemory ?_)))
    rw [mates.descriptor]
    exact before.restore running.peers.memory mates.bound _

/-- Both runs, with their retries, end on the same device and alike. -/
theorem runs_with_retry (running : Backed model h start b b' i i')
    (mates : Launch.Mates h l l') (complete : l.bound.length = l.descriptor.fields.length) :
    Together (fun r r' j j' => r'.fellBack = r.fellBack ∧ r'.outcome = r.outcome ∧
        Backed model h start r.backend r'.backend j j') (Resting model h start)
      (runWithRetry (fun i => i) b l i) (runWithRetry (fun i => i) b' l' i') := by
  refine andThen (running.runs mates complete).attempted fun r r' j j' outcomes => ?_
  cases outcomes with
  | ok running => exact .ret ⟨rfl, rfl, running⟩
  | @error e _ _ running =>
    have serve := running.peers.serve
    refine looked ?_
    rw [serve.config, serve.config']
    split
    · refine andThen (running.compilesFor _).attempted fun r r' k k' outcomes => ?_
      cases outcomes with
      | error running => exact .ret ⟨rfl, rfl, running⟩
      | ok again =>
        refine andThen (again.runs mates complete).attempted fun r r' n n' outcomes => ?_
        cases outcomes with
        | ok running | error running => exact .ret ⟨rfl, rfl, running⟩
    · exact .ret ⟨rfl, rfl, running⟩

end Running

/-! ## Executions -/

/-- Bindings to counterparts are complete in both places, or lack the same field. -/
theorem mapM_bound_cases {bindings bindings' : List (Option Bound)}
    (mates : List.Forall₂ (Option.Rel h.Mates) bindings bindings') (fields : List Field) :
    let check : Field × Option Bound → Except BindingFault Bound := fun (f, b) =>
      match b with
      | some b => .ok b
      | none => .error (.notBound f.name)
    (∃ fault, (fields.zip bindings).mapM check = .error fault ∧
        (fields.zip bindings').mapM check = .error fault) ∨
      ∃ bound bound', (fields.zip bindings).mapM check = .ok bound ∧
        (fields.zip bindings').mapM check = .ok bound' ∧ List.Forall₂ h.Mates bound bound' := by
  intro check
  induction mates generalizing fields with
  | nil => exact .inr ⟨[], [], by simp; rfl, by simp; rfl, .nil⟩
  | @cons b b' rest rest' first _ ih =>
    cases fields with
    | nil => exact .inr ⟨[], [], rfl, rfl, .nil⟩
    | cons f fields =>
      simp only [List.zip_cons_cons, List.mapM_cons]
      cases first with
      | none => exact .inl ⟨_, rfl, rfl⟩
      | some mates =>
        rcases ih fields with ⟨fault, failed, failed'⟩ | ⟨bound, bound', ended, ended', same⟩
        · rw [failed, failed']
          exact .inl ⟨fault, rfl, rfl⟩
        · rw [ended, ended']
          exact .inr ⟨_, _, rfl, rfl, .cons mates same⟩

namespace Peers

theorem bound_cases (peers : Peers model h start shared i i') :
    (∃ fault, i.kernel.bound = .error fault ∧ i'.kernel.bound = .error fault) ∨
      ∃ bound bound', i.kernel.bound = .ok bound ∧ i'.kernel.bound = .ok bound' ∧
        List.Forall₂ h.Mates bound bound' ∧
        bound.length = start.kernel.descriptor.fields.length := by
  unfold Kernel.bound
  rw [peers.descriptor, peers.descriptor']
  rcases mapM_bound_cases peers.bindings start.kernel.descriptor.fields with
    failed | ⟨bound, bound', ended, ended', mates⟩
  · exact .inl failed
  · refine .inr ⟨bound, bound', ended, ended', mates, ?_⟩
    rw [(Outcome.mapM_eq_ok ended).1, List.length_zip, peers.complete, Nat.min_self]

theorem executes (peers : Resting model h start i i') (range) :
    Steady (Resting model h start)
      (execute (fun i => i) range i) (execute (fun i => i) range i') := by
  refine looked ?_
  rw [peers.descriptor, peers.descriptor', peers.serve.config, peers.serve.config']
  rcases peers.bound_cases with
    ⟨fault, unbound, unbound'⟩ | ⟨bound, bound', all, all', mates, complete⟩
  · rw [unbound, unbound']
    exact .thrown peers
  rw [all, all']
  refine known (andThen (lifted _ _ peers) ?_)
  rintro _ size i i' ⟨-, rfl, peers⟩
  refine andThen peers.acquires ?_
  rintro ⟨b, compiled⟩ ⟨b', _⟩ j j' ⟨⟨⟩, running⟩
  have read : Together (fun n n' j j' => n' = n ∧ Backed model h start b b' j j')
      (Resting model h start) (readPassId j) (readPassId j') :=
    .ok ⟨running.peers.passId, running⟩
  change Together _ _ ((readPassId >>= _) j) ((readPassId >>= _) j')
  refine andThen read ?_
  rintro _ passId j j' ⟨rfl, running⟩
  have launch : Launch.Mates h ⟨start.kernel.descriptor, bound, range, size, passId⟩
      ⟨start.kernel.descriptor, bound', range, size, passId⟩ := ⟨rfl, mates, rfl, rfl, rfl⟩
  refine andThen (running.runs_with_retry launch complete) ?_
  rintro ⟨c, fellBack, outcome⟩ ⟨c', _, _⟩ k k' ⟨⟨⟩, ⟨⟩, peers, backends⟩
  refine changed ?_
  refine andThen (lifted _ _ (peers.setState (.idle backends))) ?_
  rintro _ _ n n' ⟨-, -, peers⟩
  rw [backends.device_eq]
  refine changed (.ok ?_)
  exact { peers with
    passId := congrArg (· + 1) peers.passId
    lastReport := rfl
    serve := peers.serve.notify _ }

/-! ## Explicit transfers -/

theorem field_eq (peers : Peers model h start shared i i') (name) :
    i'.kernel.field name = i.kernel.field name := by
  unfold Kernel.field
  rw [peers.descriptor, peers.descriptor']

theorem binding (peers : Peers model h start shared i i') (n : Nat) :
    Option.Rel h.Mates i.kernel.bindings[n]?.join i'.kernel.bindings[n]?.join := by
  have mates := peers.bindings
  generalize i.kernel.bindings = bindings at mates ⊢
  generalize i'.kernel.bindings = bindings' at mates ⊢
  induction mates generalizing n with
  | nil => exact .none
  | cons first _ ih =>
    cases n with
    | zero => exact first
    | succ n => exact ih n

section

variable (peers : Resting model h start i i')
include peers

/-- Either both instances have a program for explicit transfers or neither has. -/
theorem explicit_programs :
    Together (fun p p' j j' =>
        p = none ∧ p' = none ∧ Resting model h start j j' ∨
        ∃ id id', p = some id ∧ p' = some id' ∧ start.dispatcher.config.transfer = .explicit ∧
          OnDevice model h start id id' start.dispatcher.lasting j j')
      (Resting model h start) (explicitProgram i) (explicitProgram i') := by
  refine looked ?_
  rw [peers.serve.config, peers.serve.config']
  cases mode : start.dispatcher.config.transfer with
  | implicit => exact .ok (.inl ⟨rfl, rfl, peers⟩)
  | explicit =>
    refine andThen peers.compiles ?_
    rintro _ _ j j' ⟨-, peers⟩
    refine looked (.ok ?_)
    have states := peers.state
    generalize j.kernel.state = s at states ⊢
    generalize j'.kernel.state = s' at states ⊢
    cases states with
    | uncompiled | executing _ => exact .inl ⟨rfl, rfl, peers⟩
    | compiled backends | idle backends =>
      cases backends with
      | host device => exact .inl ⟨rfl, rfl, peers⟩
      | accelerator emits found found' =>
        exact .inr ⟨_, _, rfl, rfl, rfl, peers, .accelerator emits found found'⟩

/-- What both calls move: nothing, or counterparts at the same position. -/
theorem targets (name) :
    Together (fun t t' j j' =>
        t = none ∧ t' = none ∧ Resting model h start j j' ∨
        ∃ id id' arg b b', t = some (id, arg, b) ∧ t' = some (id', arg, b') ∧ h.Mates b b' ∧
          start.dispatcher.config.transfer = .explicit ∧
          OnDevice model h start id id' start.dispatcher.lasting j j')
      (Resting model h start) (transferTarget name i) (transferTarget name i') := by
  refine looked ?_
  rw [peers.field_eq]
  refine andThen (lifted _ _ peers) ?_
  rintro _ ⟨n, f⟩ j j' ⟨-, rfl, peers⟩
  refine andThen peers.explicit_programs ?_
  rintro _ _ k k' (⟨rfl, rfl, peers⟩ | ⟨id, id', rfl, rfl, mode, on⟩)
  · exact .ok (.inl ⟨rfl, rfl, peers⟩)
  · cases f.isTransferred with
    | false => exact .ok (.inl ⟨rfl, rfl, on.peers⟩)
    | true =>
      refine looked ?_
      have bound := on.peers.binding n
      rw [on.peers.descriptor, on.peers.descriptor']
      generalize k.kernel.bindings[n]?.join = b at bound ⊢
      generalize k'.kernel.bindings[n]?.join = b' at bound ⊢
      cases bound with
      | none => exact .thrown on.peers
      | some mates =>
        cases start.kernel.descriptor.argIndex? n with
        | none => exact .thrown on.peers
        | some arg => exact .ok (.inr ⟨id, id', arg, _, _, rfl, rfl, mates, mode, on⟩)

theorem uploads (name) : Steady (Resting model h start) (upload name i) (upload name i') := by
  refine andThen (peers.targets name) ?_
  rintro _ _ j j' (⟨rfl, rfl, peers⟩ | ⟨id, id', arg, b, b', rfl, rfl, mates, -, on⟩)
  · exact .ret peers
  · refine looked ?_
    rw [on.peers.memory.image_eq mates]
    exact (on.uploads_one (fun _ lasting => lasting) arg _).imp
      (fun _ _ _ _ on => on.peers.mono fun _ lasting => .inl lasting) fun _ _ on => on.peers

theorem downloads (name) : Steady (Resting model h start) (download name i) (download name i') := by
  refine andThen (peers.targets name) ?_
  rintro _ _ j j' (⟨rfl, rfl, peers⟩ | ⟨id, id', arg, b, b', rfl, rfl, mates, mode, on⟩)
  · exact .ret peers
  · refine andThen ((on.downloads_one (fun _ lasting => lasting) mode).imp
      (fun _ _ _ _ done => done) fun _ _ on => on.peers) ?_
    rintro _ bytes k k' ⟨rfl, on⟩
    exact (on.loads mates bytes).imp (fun _ _ _ _ on => on.peers) fun _ _ on => on.peers

end

end Peers

end GridKernel
