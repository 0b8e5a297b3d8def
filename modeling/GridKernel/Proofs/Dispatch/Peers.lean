import GridKernel.Dispatch.Transfer
import GridKernel.Proofs.Dispatch.Cache
import GridKernel.Proofs.Launch.Holding

/-!
# One instance beside two dispatchers

The same calls on one instance, made once beside a dispatcher that others use too and once beside
another one. As long as the instance holds the same in both memories, and its program holds the same
where that matters, both calls end alike and keep it so. Between calls the memory of the program
matters only if transfers are explicit; if they are implicit, an execution first writes all that its
launch reads.

Beside this, the first call leaves alone what the instance does not hold, and the programs for other
texts than its own.
-/

namespace GridKernel

variable {σ α β ε : Type} {acc : Accelerator σ}

/-! ## Actions that end alike -/

/-- Both actions succeed, or both fail for the same reason. -/
inductive Together (done : α → α → Instance σ → Instance σ → Prop)
    (failed : Instance σ → Instance σ → Prop) :
    EStateM.Result KernelError (Instance σ) α → EStateM.Result KernelError (Instance σ) α → Prop
  | ok {a a' : α} {j j' : Instance σ} (h : done a a' j j') :
      Together done failed (.ok a j) (.ok a' j')
  | error {e : KernelError} {j j' : Instance σ} (h : failed j j') :
      Together done failed (.error e j) (.error e j')

/-- However they end, both actions keep a relation. -/
abbrev Steady (related : Instance σ → Instance σ → Prop)
    (r r' : EStateM.Result KernelError (Instance σ) α) : Prop :=
  Together (fun _ _ => related) related r r'

/-- They also give the same. -/
abbrev Answers (related : Instance σ → Instance σ → Prop)
    (r r' : EStateM.Result KernelError (Instance σ) α) : Prop :=
  Together (fun a a' j j' => a' = a ∧ related j j') related r r'

/-- Outcomes of two attempts. -/
inductive Outcomes (done : α → α → Instance σ → Instance σ → Prop)
    (failed : Instance σ → Instance σ → Prop) :
    Except KernelError α → Except KernelError α → Instance σ → Instance σ → Prop
  | ok {a a' : α} {j j' : Instance σ} (h : done a a' j j') :
      Outcomes done failed (.ok a) (.ok a') j j'
  | error {e : KernelError} {j j' : Instance σ} (h : failed j j') :
      Outcomes done failed (.error e) (.error e) j j'

namespace Together

open GridKernel.Action

variable {i i' : Instance σ}

theorem ret (h : done a a' i i') :
    Together done failed ((pure a : Action σ α) i) ((pure a' : Action σ α) i') := .ok h

theorem thrown (h : failed i i') :
    Together done failed ((throw e : Action σ α) i) ((throw e : Action σ α) i') := .error h

theorem imp (h : Together done failed r r')
    (success : ∀ a a' j j', done a a' j j' → done' a a' j j')
    (failure : ∀ j j', failed j j' → failed' j j') : Together done' failed' r r' := by
  cases h with
  | ok h => exact .ok (success _ _ _ _ h)
  | error h => exact .error (failure _ _ h)

theorem andThen {x x' : Action σ α} {f f' : α → Action σ β}
    {done' : β → β → Instance σ → Instance σ → Prop} (first : Together done failed (x i) (x' i'))
    (next : ∀ a a' j j', done a a' j j' → Together done' failed (f a j) (f' a' j')) :
    Together done' failed ((x >>= f) i) ((x' >>= f') i') := by
  change Together done' failed (EStateM.bind x f i) (EStateM.bind x' f' i')
  unfold EStateM.bind
  generalize x i = r at first ⊢
  generalize x' i' = r' at first ⊢
  cases first with
  | ok h => exact next _ _ _ _ h
  | error h => exact .error h

theorem looked {f f' : Instance σ → Action σ α} (h : Together done failed (f i i) (f' i' i')) :
    Together done failed ((get >>= f) i) ((get >>= f') i') := h

theorem changed {g g' : Instance σ → Instance σ} {k k' : Unit → Action σ α}
    (h : Together done failed (k () (g i)) (k' () (g' i'))) :
    Together done failed ((modify g >>= k) i) ((modify g' >>= k') i') := h

/-- What is known before may differ. -/
theorem known (h : Together done failed (f b i) (f' b' i')) :
    Together done failed (((pure b : Action σ β) >>= f) i) (((pure b' : Action σ β) >>= f') i') := h

theorem lifted (error : ε → KernelError) (r) (h : related i i') :
    Together (fun a a' j j' => r = .ok a ∧ a' = a ∧ related j j') related
      ((ofExcept error r : Action σ α) i) ((ofExcept error r : Action σ α) i') := by
  cases r with
  | ok a => exact .ok ⟨rfl, rfl, h⟩
  | error e => exact .error h

theorem attempted (h : Together done failed (x i) (x' i')) :
    Together (Outcomes done failed) failed' (attempt x i) (attempt x' i') := by
  unfold attempt
  generalize x i = r at h ⊢
  generalize x' i' = r' at h ⊢
  cases h with
  | ok h => exact .ok (.ok h)
  | error h => exact .ok (.error h)

end Together

/-! ## Peers -/

/-- Backends that differ in the number of the program at most, which both have for the kernel's
text. -/
inductive Backends (kernel : Descriptor) (programs programs' : List (String × ProgramId)) :
    Backend → Backend → Prop
  | host (device : Device) : Backends kernel programs programs' (.host device) (.host device)
  | accelerator {source : Source} {id id' : ProgramId} (emits : kernel.compile = .ok source)
      (found : programs.lookup source.text = some id)
      (found' : programs'.lookup source.text = some id') :
      Backends kernel programs programs' (.accelerator id) (.accelerator id')

inductive States (kernel : Descriptor) (programs programs' : List (String × ProgramId)) :
    KernelState → KernelState → Prop
  | uncompiled : States kernel programs programs' .uncompiled .uncompiled
  | compiled {b b' : Backend} (backends : Backends kernel programs programs' b b') :
      States kernel programs programs' (.compiled b) (.compiled b')
  | executing {b b' : Backend} (backends : Backends kernel programs programs' b b') :
      States kernel programs programs' (.executing b) (.executing b')
  | idle {b b' : Backend} (backends : Backends kernel programs programs' b b') :
      States kernel programs programs' (.idle b) (.idle b')

section

variable {kernel : Descriptor} {programs : List (String × ProgramId)}

theorem Backends.device_eq (h : Backends kernel programs programs' b b') :
    b'.device = b.device := by cases h <;> rfl

theorem Backends.mono (h : Backends kernel programs programs' b b')
    (kept : ∀ {text id}, programs.lookup text = some id → later.lookup text = some id)
    (kept' : ∀ {text id}, programs'.lookup text = some id → later'.lookup text = some id) :
    Backends kernel later later' b b' := by
  cases h with
  | host device => exact .host device
  | accelerator emits found found' => exact .accelerator emits (kept found) (kept' found')

theorem States.mono (h : States kernel programs programs' s s')
    (kept : ∀ {text id}, programs.lookup text = some id → later.lookup text = some id)
    (kept' : ∀ {text id}, programs'.lookup text = some id → later'.lookup text = some id) :
    States kernel later later' s s' := by
  cases h with
  | uncompiled => exact .uncompiled
  | compiled b => exact .compiled (b.mono kept kept')
  | executing b => exact .executing (b.mono kept kept')
  | idle b => exact .idle (b.mono kept kept')

end

/-- The positions whose memory matters between calls: all if transfers are explicit, else none. -/
def Dispatcher.lasting (d : Dispatcher σ) (_ : Nat) : Prop := d.config.transfer = .explicit

/-- Two dispatchers that serve an instance of a kernel alike. The memories of its programs agree
where `shared` says so. -/
structure Dispatcher.Serve (model : ProgramModel acc) (kernel : Descriptor) (shared : Nat → Prop)
    (start d d' : Dispatcher σ) : Prop where
  ahead : Ahead model kernel start d
  settings : d'.settings = start.settings
  impartial : start.host.pool.Impartial
  cached : d'.Cached model
  agree : ∀ {source code mem code' mem'}, kernel.compile = .ok source →
    d.held model source.text = some (code, mem) → d'.held model source.text = some (code', mem') →
    DeviceMemory.Agree shared mem mem'
  together : start.config.transfer = .explicit → ∀ {source}, kernel.compile = .ok source →
    (d.programs.lookup source.text = none ↔ d'.programs.lookup source.text = none)

/-- An instance beside two dispatchers, in the same situation. In the first place nothing else has
changed since the start. -/
structure Peers (model : ProgramModel acc) (h : Holding) (start : Instance σ) (shared : Nat → Prop)
    (i i' : Instance σ) : Prop where
  descriptor : i.kernel.descriptor = start.kernel.descriptor
  descriptor' : i'.kernel.descriptor = start.kernel.descriptor
  bindings : List.Forall₂ (Option.Rel h.Mates) i.kernel.bindings i'.kernel.bindings
  complete : i.kernel.bindings.length = start.kernel.descriptor.fields.length
  state : States start.kernel.descriptor i.dispatcher.programs i'.dispatcher.programs i.kernel.state
    i'.kernel.state
  passId : i'.kernel.passId = i.kernel.passId
  lastReport : i'.kernel.lastReport = i.kernel.lastReport
  memory : h.Alike start.memory i.memory i'.memory
  serve : Dispatcher.Serve model start.kernel.descriptor shared start.dispatcher i.dispatcher
    i'.dispatcher

/-- Peers that run on these backends. -/
structure Running (model : ProgramModel acc) (h : Holding) (start : Instance σ) (b b' : Backend)
    (shared : Nat → Prop) (i i' : Instance σ) : Prop where
  peers : Peers model h start shared i i'
  backends : Backends start.kernel.descriptor i.dispatcher.programs i'.dispatcher.programs b b'

/-- Peers that run these programs. -/
abbrev OnDevice (model : ProgramModel acc) (h : Holding) (start : Instance σ) (id id' : ProgramId) :
    (Nat → Prop) → Instance σ → Instance σ → Prop :=
  Running model h start (.accelerator id) (.accelerator id')

/-- Peers between calls. -/
abbrev Resting (model : ProgramModel acc) (h : Holding) (start : Instance σ) :
    Instance σ → Instance σ → Prop :=
  Peers model h start start.dispatcher.lasting

/-- Peers between calls, beside the backends that they have or get. -/
abbrev Backed (model : ProgramModel acc) (h : Holding) (start : Instance σ) (b b' : Backend) :
    Instance σ → Instance σ → Prop :=
  Running model h start b b' start.dispatcher.lasting

variable {model : ProgramModel acc} {h : Holding} {start i i' : Instance σ} {shared : Nat → Prop}

variable {fewer : Nat → Prop}

namespace Dispatcher.Serve

variable {kernel : Descriptor} {first d d' e e' : Dispatcher σ}

section

variable (serve : Serve model kernel shared first d d')
include serve

theorem config : d.config = first.config :=
  congrArg Prod.fst serve.ahead.settings

theorem config' : d'.config = first.config :=
  congrArg Prod.fst serve.settings

theorem accelerator_eq :
    d'.accelerator = d.accelerator :=
  congrArg (·.2.1) (serve.settings.trans serve.ahead.settings.symm)

theorem host : d.host = first.host :=
  congrArg (·.2.2) serve.ahead.settings

theorem host' : d'.host = first.host :=
  congrArg (·.2.2) serve.settings

theorem mono (sub : ∀ k, fewer k → shared k) : Serve model kernel fewer first d d' where
  ahead := serve.ahead
  settings := serve.settings
  impartial := serve.impartial
  cached := serve.cached
  agree emits held held' k known := serve.agree emits held held' k (sub k known)
  together := serve.together

/-- Both go on, and what the kernel's programs hold then agrees. -/
theorem next (ahead : Ahead model kernel d e) (ahead' : Ahead model kernel d' e')
    (agree : ∀ {source code mem code' mem'}, kernel.compile = .ok source → e.held model source.text
      = some (code, mem) → e'.held model source.text = some (code', mem') → DeviceMemory.Agree after
      mem mem')
    (together : first.config.transfer = .explicit → ∀ {source}, kernel.compile = .ok source →
      (e.programs.lookup source.text = none ↔ e'.programs.lookup source.text = none)) :
    Serve model kernel after first e e' where
  ahead := serve.ahead.trans ahead
  settings := ahead'.settings.trans serve.settings
  impartial := serve.impartial
  cached := ahead'.cached
  agree := agree
  together := together

theorem notify (r) : Serve model kernel shared first (d.notify r) (d'.notify r) :=
  ⟨serve.ahead.notify r, serve.settings, serve.impartial, serve.cached.notify r, serve.agree,
    serve.together⟩

end

/-- What instances of another kernel do to the first dispatcher does not matter, if transfers are
implicit or the texts differ. -/
theorem undisturbed (serve : Serve model kernel d.lasting d d d') (ahead : Ahead model other d e)
    (apart : d.config.transfer = .explicit → ∀ {source}, kernel.compile = .ok source → ∀ source',
      other.compile = .ok source' → source'.text ≠ source.text) :
    Serve model kernel e.lasting e e d' := by
  have config : e.config = d.config := congrArg Prod.fst ahead.settings
  have host : e.host = d.host := congrArg (·.2.2) ahead.settings
  have lasting : e.lasting = d.lasting :=
    funext fun _ => by rw [Dispatcher.lasting, Dispatcher.lasting, config]
  refine ⟨.refl _ ahead.cached, serve.settings.trans ahead.settings.symm, host ▸ serve.impartial,
    serve.cached, ?_, ?_⟩
  · intro source code mem code' mem' emits held held' k explicit
    rw [lasting] at explicit
    rw [(ahead.others (apart explicit emits)).2] at held
    exact serve.agree emits held held' k explicit
  · intro explicit source emits
    rw [config] at explicit
    rw [(ahead.others (apart explicit emits)).1]
    exact serve.together explicit emits

end Dispatcher.Serve

namespace Peers

section

variable (peers : Peers model h start shared i i')
include peers

theorem mono (sub : ∀ k, fewer k → shared k) : Peers model h start fewer i i' :=
  { peers with serve := peers.serve.mono sub }

theorem setState
    (states : States start.kernel.descriptor i.dispatcher.programs i'.dispatcher.programs s s') :
    Peers model h start shared (i.setState s) (i'.setState s') :=
  { peers with state := states }

theorem setMemory (alike : h.Alike start.memory m m') :
    Peers model h start shared { i with memory := m } { i' with memory := m' } :=
  { peers with memory := alike }

theorem setDevice
    (serve : Dispatcher.Serve model start.kernel.descriptor after start.dispatcher
      { i.dispatcher with device := s } { i'.dispatcher with device := s' }) :
    Peers model h start after (i.setDevice s) (i'.setDevice s') :=
  { peers with serve := serve }

end

end Peers

namespace Running

variable {b b' : Backend}

theorem mono (running : Running model h start b b' shared i i') (sub : ∀ k, fewer k → shared k) :
    Running model h start b b' fewer i i' :=
  ⟨running.peers.mono sub, running.backends⟩

theorem setMemory (running : Running model h start b b' shared i i')
    (alike : h.Alike start.memory m m') :
    Running model h start b b' shared { i with memory := m } { i' with memory := m' } :=
  ⟨running.peers.setMemory alike, running.backends⟩

end Running

/-! ## The accelerator -/

namespace OnDevice

open GridKernel.Action

variable {id id' : ProgramId}

/-- An operation on both programs. Its answers are the same if the memories agree where it reads
them. -/
theorem asks (on : OnDevice model h start id id' shared i i')
    (op : Accelerator σ → ProgramId → DeviceAction σ α) (after : Nat → Prop)
    (acts : model.Acts (op acc) act) (sub : ∀ k, start.dispatcher.lasting k → shared k)
    (answers : ∀ code {mem mem'}, DeviceMemory.Agree shared mem mem' → (act code mem').1 =
      (act code mem).1 ∧ DeviceMemory.Agree start.dispatcher.lasting (act code mem).2
      (act code mem').2 ∧ ∀ a, (act code mem).1 = .ok a → DeviceMemory.Agree after (act code mem).2
      (act code mem').2) :
    Together (fun a a' j j' => a' = a ∧ OnDevice model h start id id' after j j')
      (OnDevice model h start id id' start.dispatcher.lasting)
      (onDevice (op · id) i) (onDevice (op · id') i') := by
  obtain ⟨peers, backends⟩ := on
  have serve := peers.serve
  refine Together.looked ?_
  rw [serve.accelerator_eq]
  cases configured : i.dispatcher.accelerator with
  | none => exact .thrown ⟨peers.mono sub, backends⟩
  | some a =>
    obtain rfl := serve.ahead.cached.accelerator a configured
    cases backends with
    | accelerator emits found found' =>
      obtain ⟨code, mem, program, built, held⟩ := serve.ahead.cached.held_of_lookup found
      obtain ⟨code', mem', program', built', held'⟩ := serve.cached.held_of_lookup found'
      obtain rfl : code' = code := Except.ok.inj (built'.symm.trans built)
      obtain ⟨answer, lasting, kept⟩ := answers code' (serve.agree emits held held')
      obtain ⟨ahead, now⟩ := serve.ahead.cached.acted emits found acts program
      obtain ⟨ahead', now'⟩ := serve.cached.acted emits found' acts program'
      have ended := (acts serve.ahead.cached.sound program).1
      have ended' := (acts serve.cached.sound program').1.trans answer
      have continues : ∀ {known : Nat → Prop},
          DeviceMemory.Agree known (act code' mem).2 (act code' mem').2 →
          Peers model h start known (i.setDevice (op a id i.dispatcher.device).2)
            (i'.setDevice (op a id' i'.dispatcher.device).2) := by
        intro known agree
        refine peers.setDevice (serve.next ahead ahead' ?_ serve.together)
        intro source' code₁ mem₁ code₂ mem₂ translated' held₁ held₂
        obtain rfl := Except.ok.inj (translated'.symm.trans emits)
        cases Option.some.inj (held₁.symm.trans now)
        cases Option.some.inj (held₂.symm.trans now')
        exact agree
      change Together _ _
        ((ofExcept _ (op a id i.dispatcher.device).1 : Action σ α)
          (i.setDevice (op a id i.dispatcher.device).2))
        ((ofExcept _ (op a id' i'.dispatcher.device).1 : Action σ α)
          (i'.setDevice (op a id' i'.dispatcher.device).2))
      rw [ended, ended']
      cases outcome : (act code' mem).1 with
      | error reason => exact .thrown ⟨continues lasting, .accelerator emits found found'⟩
      | ok a => exact .ret ⟨rfl, continues (kept a outcome), .accelerator emits found found'⟩

/-- An upload makes its position agree. -/
theorem uploads_one (on : OnDevice model h start id id' shared i i')
    (sub : ∀ k, start.dispatcher.lasting k → shared k) (arg bytes) :
    Together (fun _ _ j j' => OnDevice model h start id id' (fun k => shared k ∨ k = arg) j j')
      (OnDevice model h start id id' start.dispatcher.lasting)
      (onDevice (·.upload id arg bytes) i) (onDevice (·.upload id' arg bytes) i') := by
  refine (on.asks (fun acc id => acc.upload id arg bytes) (fun k => shared k ∨ k = arg)
    (model.uploads arg bytes) sub ?_).imp (fun _ _ _ _ done => done.2) fun _ _ failed => failed
  intro code mem mem' agree
  cases model.upload code arg bytes with
  | error reason => exact ⟨rfl, fun k lasting => agree k (sub k lasting), nofun⟩
  | ok _ =>
    have written : DeviceMemory.Agree (fun k => shared k ∨ k = arg)
        (Function.update mem arg (some bytes)) (Function.update mem' arg (some bytes)) := by
      intro k known
      by_cases here : k = arg
      · subst here
        simp
      · simpa [here] using agree k (known.resolve_right here)
    exact ⟨rfl, fun k lasting => written k (.inl (sub k lasting)), fun _ _ => written⟩

/-- After all uploads their positions agree. -/
theorem uploads (mates : List.Forall₂ (Descriptor.Transfer.Mates h) ts ts')
    (on : OnDevice model h start id id' shared i i')
    (sub : ∀ k, start.dispatcher.lasting k → shared k) :
    Together (fun _ _ j j' =>
        OnDevice model h start id id' (fun k => shared k ∨ ∃ t ∈ ts, t.arg = k) j j')
      (OnDevice model h start id id' start.dispatcher.lasting)
      (uploadAll id ts i) (uploadAll id' ts' i') := by
  induction mates generalizing i i' shared with
  | nil => exact .ret (on.mono fun k known => known.resolve_right (by simp))
  | @cons t t' rest rest' first _ ih =>
    refine Together.looked ?_
    rw [first.arg, on.peers.memory.image_eq first.bound]
    refine Together.andThen (on.uploads_one sub t.arg _) fun _ _ j j' on => ?_
    refine (ih on fun k lasting => .inl (sub k lasting)).imp (fun _ _ _ _ on => on.mono ?_)
      fun _ _ failed => failed
    rintro k (known | ⟨u, member, position⟩)
    · exact .inl (.inl known)
    · rcases List.mem_cons.mp member with rfl | member
      · exact .inl (.inr position.symm)
      · exact .inr ⟨u, member, position⟩

theorem downloads_one (on : OnDevice model h start id id' shared i i')
    (sub : ∀ k, start.dispatcher.lasting k → shared k) (known : shared arg) :
    Together (fun bytes bytes' j j' => bytes' = bytes ∧ OnDevice model h start id id' shared j j')
      (OnDevice model h start id id' start.dispatcher.lasting)
      (onDevice (·.download id arg) i) (onDevice (·.download id' arg) i') := by
  refine on.asks (fun acc id => acc.download id arg) shared (model.downloads arg) sub ?_
  intro code mem mem' agree
  refine ⟨?_, fun k lasting => agree k (sub k lasting), fun _ _ => agree⟩
  dsimp only
  rw [agree arg known]

/-- From positions that agree the same images come back. -/
theorem downloads (mates : List.Forall₂ (Descriptor.Transfer.Mates h) ts ts')
    (on : OnDevice model h start id id' shared i i')
    (sub : ∀ k, start.dispatcher.lasting k → shared k) (known : ∀ t ∈ ts, shared t.arg) :
    Together (fun images images' j j' =>
        List.Forall₂ (fun p p' : Bound × List UInt8 => h.Mates p.1 p'.1 ∧ p'.2 = p.2)
          images images' ∧ OnDevice model h start id id' shared j j')
      (OnDevice model h start id id' start.dispatcher.lasting)
      (downloadAll id ts i) (downloadAll id' ts' i') := by
  induction mates generalizing i i' with
  | nil => exact .ret ⟨.nil, on⟩
  | @cons t t' rest rest' first _ ih =>
    unfold downloadAll
    rw [first.arg]
    refine Together.andThen (on.downloads_one sub (known t List.mem_cons_self)) ?_
    rintro bytes _ j j' ⟨rfl, on⟩
    refine Together.andThen (ih on fun u member => known u (List.mem_cons_of_mem t member)) ?_
    rintro images images' k k' ⟨same, on⟩
    exact .ret ⟨.cons ⟨first.bound, rfl⟩ same, on⟩

theorem launches (on : OnDevice model h start id id' shared i i')
    (sub : ∀ k, start.dispatcher.lasting k → shared k)
    (known : ∀ k bytes, args[k]? = some (.buffer bytes) → shared k) (range size) :
    Together (fun _ _ j j' => OnDevice model h start id id' shared j j')
      (OnDevice model h start id id' start.dispatcher.lasting)
      (onDevice (·.launch id args range size) i) (onDevice (·.launch id' args range size) i') := by
  refine (on.asks (fun acc id => acc.launch id args range size) shared
    (model.launches args range size) sub ?_).imp (fun _ _ _ _ done => done.2)
    fun _ _ failed => failed
  intro code mem mem' agree
  obtain ⟨outcome, left⟩ := model.confined code args range size known agree
  exact ⟨outcome, fun k lasting => left k (sub k lasting), fun _ _ => left⟩

end OnDevice

namespace Running

open GridKernel.Action

variable {b b' : Backend}

theorem loads (running : Running model h start b b' shared i i') (mates : h.Mates f f') (bytes) :
    Steady (Running model h start b b' shared) (load f bytes i) (load f' bytes i') := by
  refine Together.looked ?_
  rcases running.peers.memory.loadImage mates bytes with
    ⟨fault, refused, refused'⟩ | ⟨m, m', loaded, loaded', alike⟩
  · rw [refused, refused']
    exact .thrown running
  · rw [loaded, loaded']
    exact .ret (running.setMemory alike)

theorem loadsAll (running : Running model h start b b' shared i i')
    (same : List.Forall₂ (fun p p' => h.Mates p.1 p'.1 ∧ p'.2 = p.2) images images') :
    Steady (Running model h start b b' shared) (loadAll images i) (loadAll images' i') := by
  induction same generalizing i i' with
  | nil => exact .ret running
  | @cons p p' rest rest' first _ ih =>
    obtain ⟨f, bytes⟩ := p
    obtain ⟨f', _⟩ := p'
    obtain ⟨mates, rfl⟩ := first
    exact Together.andThen (running.loads mates _) fun _ _ _ _ running => ih running

end Running

namespace OnDevice

open GridKernel.Action

variable {id id' : ProgramId} {l l' : Launch}

/-- A launch whose arguments are uploaded first, or hold what earlier calls left there. -/
theorem exchanges (mates : List.Forall₂ (Descriptor.Transfer.Mates h) ts ts')
    (on : OnDevice model h start id id' start.dispatcher.lasting i i')
    (known : ∀ k bytes, args[k]? = some (.buffer bytes) → start.dispatcher.lasting k ∨ ∃ t ∈ ts,
      t.arg = k)
    (range size) :
    Steady (OnDevice model h start id id' start.dispatcher.lasting)
      ((do
        uploadAll id ts
        modify fun i => i
        onDevice (·.launch id args range size)
        let images ← downloadAll id (ts.filter (·.field.isWritten))
        loadAll images : Action σ Unit) i)
      ((do
        uploadAll id' ts'
        modify fun i => i
        onDevice (·.launch id' args range size)
        let images ← downloadAll id' (ts'.filter (·.field.isWritten))
        loadAll images : Action σ Unit) i') := by
  have sub : ∀ k, start.dispatcher.lasting k →
      start.dispatcher.lasting k ∨ ∃ t ∈ ts, t.arg = k := fun _ lasting => .inl lasting
  have written : List.Forall₂ (Descriptor.Transfer.Mates h) (ts.filter (·.field.isWritten))
      (ts'.filter (·.field.isWritten)) :=
    List.rel_filter (fun t t' mates => by simp only [mates.field]) mates
  refine Together.andThen (uploads mates on fun _ lasting => lasting) fun _ _ j j' on => ?_
  refine Together.changed ?_
  refine Together.andThen (on.launches sub known range size) fun _ _ j j' on => ?_
  refine Together.andThen (downloads written on sub fun t member =>
    .inr ⟨t, (List.mem_filter.mp member).1, rfl⟩) ?_
  rintro images images' j j' ⟨same, on⟩
  exact (on.mono sub).loadsAll same

theorem runs (on : OnDevice model h start id id' start.dispatcher.lasting i i')
    (mates : Launch.Mates h l l') (complete : l.bound.length = l.descriptor.fields.length) :
    Steady (OnDevice model h start id id' start.dispatcher.lasting)
      (runOnDevice (fun i => i) id l i) (runOnDevice (fun i => i) id' l' i') := by
  have serve := on.peers.serve
  refine Together.looked ?_
  rw [serve.config, serve.config', mates.descriptor, mates.range, mates.localSize, mates.passId,
    Descriptor.launchArgs_eq on.peers.memory mates.bound]
  cases mode : start.dispatcher.config.transfer with
  | implicit =>
    exact exchanges (Descriptor.transfers_mates mates.bound _) on
      (fun k bytes found => .inr (Descriptor.transferred_of_buffer complete found)) _ _
  | explicit => exact exchanges .nil on (fun _ _ _ => .inl mode) _ _

end OnDevice

end GridKernel
