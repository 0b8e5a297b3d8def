import GridKernel.Proofs.Dispatch.Calls

/-!
# Requests

All the calls that can be made on an instance, as one type. Peers answer every request alike, and
hold the same afterwards; the slots that a request creates become counterparts. Every instance is a
peer of itself.
-/

namespace GridKernel

open GridKernel.Action Together

variable {σ : Type} {acc : Accelerator σ}

/-- A call on an instance. -/
inductive Request where
  | bind (field : String) (id : BufferId) (type : ScalarType)
  | bindScalar (field : String) (value : Value)
  | bindSlots (field : String) (size : Nat)
  | compile
  | upload (field : String)
  | execute (range : Range)
  | download (field : String)

namespace Request

/-- The buffer that is bound. -/
def buffer? : Request → Option BufferId
  | bind _ id _ => some id
  | _ => none

/-- Makes the call. A compilation tells its device. -/
def perform : Request → Action σ (Option Device)
  | bind field id type => do
    let k ← ofExcept .binding ((← get).kernel.bind field id type)
    modify fun i => { i with kernel := k }
    return none
  | bindScalar field value => do
    let k ← ofExcept .binding ((← get).kernel.bindScalar field value)
    modify fun i => { i with kernel := k }
    return none
  | bindSlots field size => do
    let i ← get
    let r ← ofExcept .binding (i.kernel.bindSlots field size i.memory)
    modify fun i => { i with kernel := r.1, memory := r.2 }
    return none
  | compile => do return some (← Action.compile)
  | upload field => do
    Action.upload field
    return none
  | execute range => do
    Action.execute id range
    return none
  | download field => do
    Action.download field
    return none

end Request

/-! ## One instance beside two dispatchers -/

namespace Peers

variable {model : ProgramModel acc} {h : Holding} {start i i' : Instance σ} {shared : Nat → Prop}

theorem setBinding (peers : Peers model h start shared i i') (mates : h.Mates b b') (n) :
    Peers model h start shared { i with kernel := i.kernel.setBinding n b }
      { i' with kernel := i'.kernel.setBinding n b' } := by
  have set : List.Forall₂ (Option.Rel h.Mates) (i.kernel.bindings.set n (some b))
      (i'.kernel.bindings.set n (some b')) := by
    have bindings := peers.bindings
    generalize i.kernel.bindings = l at bindings ⊢
    generalize i'.kernel.bindings = l' at bindings ⊢
    induction bindings generalizing n with
    | nil => exact .nil
    | cons first rest ih =>
      cases n with
      | zero => exact .cons (.some mates) rest
      | succ n => exact .cons first (ih n)
  exact { peers with bindings := set, complete := (List.length_set ..).trans peers.complete }

/-- The next slots of both memories become counterparts. -/
theorem addSlots (peers : Peers model h start shared i i') (s) :
    Peers model peers.memory.added start shared { i with memory := (i.memory.addSlots s).1 }
      { i' with memory := (i'.memory.addSlots s).1 } := by
  have bindings : List.Forall₂ (Option.Rel peers.memory.added.Mates) i.kernel.bindings
      i'.kernel.bindings := by
    refine peers.bindings.imp fun b b' mates => ?_
    cases mates with
    | none => exact .none
    | some mates =>
      cases mates with
      | scalar v => exact .some (.scalar v)
      | array owned => exact .some (.array owned)
      | slots paired => exact .some (.slots (.inl paired))
  exact {
    descriptor := peers.descriptor
    descriptor' := peers.descriptor'
    bindings := bindings
    complete := peers.complete
    state := peers.state
    passId := peers.passId
    lastReport := peers.lastReport
    memory := peers.memory.addSlots s
    serve := peers.serve }

end Peers

/-- What is held after a call: the same buffers, and slots that it held before or that are new. -/
structure Holding.Grows (h h' : Holding) (size : Nat) : Prop where
  owns : ∀ id, h'.owns id ↔ h.owns id
  pairs : ∀ {a b}, h'.pairs a b → h.pairs a b ∨ size ≤ a

namespace Peers

variable {model : ProgramModel acc} {h : Holding} {start i i' : Instance σ}

section

variable (peers : Resting model h start i i')
include peers

/-- A field that fits is bound to counterparts, and any other is refused in both places. -/
theorem rebinds (name : String) (fits : Field → Bool) (fault : BindingFault)
    (mates : h.Mates b b') : let bound (k : Kernel) (b : Bound) : Except BindingFault Kernel := do
      let (n, f) ← k.field name
      if fits f then return k.setBinding n b else .error fault
    Answers (Resting model h start)
      ((do
        let k ← ofExcept .binding (bound i.kernel b)
        modify fun i => { i with kernel := k }
        return none : Action σ (Option Device)) i)
      ((do
        let k ← ofExcept .binding (bound i'.kernel b')
        modify fun i => { i with kernel := k }
        return none : Action σ (Option Device)) i') := by
  intro bound
  have ended : (∃ fault, bound i.kernel b = .error fault ∧ bound i'.kernel b' = .error fault) ∨
      ∃ n, bound i.kernel b = .ok (i.kernel.setBinding n b) ∧
        bound i'.kernel b' = .ok (i'.kernel.setBinding n b') := by
    dsimp only [bound]
    rw [peers.field_eq]
    cases i.kernel.field name with
    | error fault => exact .inl ⟨fault, rfl, rfl⟩
    | ok p =>
      obtain ⟨n, f⟩ := p
      by_cases fit : fits f = true
      · exact .inr ⟨n, if_pos fit, if_pos fit⟩
      · exact .inl ⟨fault, if_neg fit, if_neg fit⟩
  rcases ended with ⟨fault, failed, failed'⟩ | ⟨n, ended, ended'⟩
  · rw [failed, failed']
    exact .error peers
  · rw [ended, ended']
    exact .ok ⟨rfl, peers.setBinding mates n⟩

theorem bindSlots_cases (field size) :
    (∃ fault, i.kernel.bindSlots field size i.memory = .error fault ∧
        i'.kernel.bindSlots field size i'.memory = .error fault) ∨
      ∃ n s, i.kernel.bindSlots field size i.memory =
          .ok (i.kernel.setBinding n (.slots i.memory.slots.size), (i.memory.addSlots s).1) ∧
        i'.kernel.bindSlots field size i'.memory =
          .ok (i'.kernel.setBinding n (.slots i'.memory.slots.size), (i'.memory.addSlots s).1) := by
  unfold Kernel.bindSlots
  rw [peers.field_eq]
  cases i.kernel.field field with
  | error fault => exact .inl ⟨fault, rfl, rfl⟩
  | ok p =>
    obtain ⟨n, f⟩ := p
    simp only [bind, Except.bind]
    cases f.slotWidth?.filter fun _ => f.isArray with
    | none => exact .inl ⟨_, rfl, rfl⟩
    | some width => exact .inr ⟨n, _, rfl, rfl⟩

/-- Whatever the call, the answers are the same. -/
theorem performs (r : Request)
    (own : ∀ id, r.buffer? = some id → h.owns id) :
    ∃ h' : Holding, h.Grows h' start.memory.slots.size ∧
      Answers (Resting model h' start) (r.perform i) (r.perform i') := by
  have unchanged : h.Grows h start.memory.slots.size := ⟨fun _ => Iff.rfl, .inl⟩
  have still : ∀ {x : Action σ Unit},
      Steady (Resting model h start) (x i) (x i') →
      Answers (Resting model h start)
        ((do x; return none : Action σ (Option Device)) i)
        ((do x; return none : Action σ (Option Device)) i') :=
    fun ended => andThen ended fun _ _ _ _ peers => .ret ⟨rfl, peers⟩
  cases r with
  | compile =>
    refine ⟨h, unchanged, andThen peers.compiles ?_⟩
    rintro device _ j j' ⟨rfl, peers⟩
    exact .ret ⟨rfl, peers⟩
  | upload field => exact ⟨h, unchanged, still (peers.uploads field)⟩
  | download field => exact ⟨h, unchanged, still (peers.downloads field)⟩
  | execute range => exact ⟨h, unchanged, still (peers.executes range)⟩
  | bind field id type =>
    exact ⟨h, unchanged, looked (peers.rebinds field
      (fun f => f.isArray && f.scalarType? = some type) (.bufferType field type)
      (.array (own id rfl)))⟩
  | bindScalar field value =>
    exact ⟨h, unchanged, looked (peers.rebinds field
      (fun f => !f.isArray && f.scalarType? = some value.type) (.valueType field value.type)
      (.scalar value))⟩
  | bindSlots field size =>
    rcases peers.bindSlots_cases field size with ⟨fault, ended, ended'⟩ | ⟨n, s, ended, ended'⟩
    · refine ⟨h, unchanged, looked ?_⟩
      rw [ended, ended']
      exact .error peers
    · refine ⟨peers.memory.added, ⟨fun _ => Iff.rfl, ?_⟩, looked ?_⟩
      · rintro a b (old | ⟨rfl, -⟩)
        · exact .inl old
        · exact .inr peers.memory.size
      · rw [ended, ended']
        exact .ok ⟨rfl, (peers.addSlots s).setBinding (.slots (.inr ⟨rfl, rfl⟩)) n⟩

/-- From here on nothing has changed yet. -/
theorem rebase :
    Peers model h i i.dispatcher.lasting i i' := by
  have config := peers.serve.config
  have same : i.dispatcher.lasting = start.dispatcher.lasting :=
    funext fun _ => by rw [Dispatcher.lasting, Dispatcher.lasting, config]
  rw [same]
  exact {
    descriptor := rfl
    descriptor' := peers.descriptor'.trans peers.descriptor.symm
    bindings := peers.bindings
    complete := by rw [peers.descriptor]; exact peers.complete
    state := by rw [peers.descriptor]; exact peers.state
    passId := peers.passId
    lastReport := peers.lastReport
    memory := { peers.memory with
      otherBuffers := fun _ => rfl
      otherSlots := fun _ => rfl
      size := Nat.le_refl _ }
    serve := by
      rw [peers.descriptor]
      exact {
        ahead := .refl _ peers.serve.ahead.cached
        settings := peers.serve.settings.trans peers.serve.ahead.settings.symm
        impartial := peers.serve.host ▸ peers.serve.impartial
        cached := peers.serve.cached
        agree := peers.serve.agree
        together := fun explicit => peers.serve.together (config ▸ explicit) } }

end

end Peers

/-- An instance that runs on the accelerator runs the program for its text. -/
def Instance.Placed (i : Instance σ) : Prop :=
  ∀ id, i.kernel.state.backend? = some (.accelerator id) →
    ∃ source, i.kernel.descriptor.compile = .ok source ∧
      i.dispatcher.programs.lookup source.text = some id

theorem Instance.Placed.states {i : Instance σ} (placed : i.Placed) :
    States i.kernel.descriptor i.dispatcher.programs i.dispatcher.programs i.kernel.state
      i.kernel.state := by
  unfold Instance.Placed at placed
  have backends : ∀ {b}, i.kernel.state.backend? = some b →
      Backends i.kernel.descriptor i.dispatcher.programs i.dispatcher.programs b b := by
    intro b runs
    cases b with
    | host device => exact .host device
    | accelerator id =>
      obtain ⟨source, emits, found⟩ := placed id runs
      exact .accelerator emits found found
  generalize i.kernel.state = s at backends ⊢
  cases s with
  | uncompiled => exact .uncompiled
  | compiled b => exact .compiled (backends rfl)
  | executing b => exact .executing (backends rfl)
  | idle b => exact .idle (backends rfl)

/-- The slots of a field, by its index. -/
theorem Kernel.slots?_eq (k : Kernel) (field : String) :
    k.slots? field = (k.descriptor.fieldIndex? field).bind fun n =>
      k.bindings[n]?.join.bind fun
        | .slots id => some id
        | _ => none := by
  unfold Kernel.slots?
  cases k.descriptor.fieldIndex? field with
  | none => rfl
  | some n =>
    change k.bindings[n]?.bind _ = _
    cases found : k.bindings[n]? with
    | none => simp [found]
    | some b =>
      cases b with
      | none => simp [found]
      | some b => cases b <;> simp [found]

/-- What an instance holds on its own: the buffers that are its own, and its slots. -/
def Kernel.holding (k : Kernel) (owns : BufferId → Prop) : Holding where
  owns := owns
  pairs a b := a = b ∧ some (.slots a) ∈ k.bindings
  oneToOne := by
    rintro a _ a' _ ⟨rfl, -⟩ ⟨rfl, -⟩
    exact Iff.rfl

namespace Peers

variable {model : ProgramModel acc} {h : Holding} {start i i' : Instance σ} {owns : BufferId → Prop}

/-- Every instance is its own peer. -/
theorem self (cached : i.dispatcher.Cached model) (impartial : i.dispatcher.host.pool.Impartial)
    (placed : i.Placed)
    (complete : i.kernel.bindings.length = i.kernel.descriptor.fields.length)
    (arrays : ∀ {id}, some (.array id) ∈ i.kernel.bindings → owns id)
    (slots : ∀ {a}, some (.slots a) ∈ i.kernel.bindings → a < i.memory.slots.size) :
    Peers model (i.kernel.holding owns) i i.dispatcher.lasting i i where
  descriptor := rfl
  descriptor' := rfl
  bindings := List.forall₂_same.mpr fun b member => by
    cases b with
    | none => exact .none
    | some b =>
      cases b with
      | scalar v => exact .some (.scalar v)
      | array id => exact .some (.array (arrays member))
      | slots a => exact .some (.slots ⟨rfl, member⟩)
  complete := complete
  state := placed.states
  passId := rfl
  lastReport := rfl
  memory := {
    buffers := fun _ => rfl
    slots := fun ⟨same, _⟩ => by rw [same]
    valid := fun ⟨same, member⟩ => ⟨slots member, same ▸ slots member⟩
    otherBuffers := fun _ => rfl
    otherSlots := fun _ => rfl
    size := Nat.le_refl _ }
  serve := {
    ahead := .refl _ cached
    settings := rfl
    impartial := impartial
    cached := cached
    agree := fun _ held held' => by
      cases held.symm.trans held'
      exact fun _ _ => rfl
    together := fun _ _ _ => Iff.rfl }

section

variable (peers : Resting model h start i i')
include peers

theorem placed : i.Placed := by
  have states := peers.state
  intro id runs
  rw [peers.descriptor]
  generalize i.kernel.state = s at states runs
  generalize i'.kernel.state = s' at states
  cases states with
  | uncompiled => cases runs
  | compiled backends | executing backends | idle backends =>
    cases runs
    cases backends with
    | accelerator emits found _ => exact ⟨_, emits, found⟩

/-- The host sees the same state. -/
theorem state_eq :
    i.kernel.state.text = i'.kernel.state.text ∧ i.kernel.device? = i'.kernel.device? := by
  have states := peers.state
  unfold Kernel.device?
  generalize i.kernel.state = s at states ⊢
  generalize i'.kernel.state = s' at states ⊢
  cases states with
  | uncompiled => exact ⟨rfl, rfl⟩
  | compiled backends | executing backends | idle backends =>
    simp [KernelState.text, KernelState.backend?, backends.device_eq]

/-- The host sees the same contents of slots, which may have other numbers. -/
theorem slots_eq (field) :
    (i.kernel.slots? field).bind i.memory.slots? =
      (i'.kernel.slots? field).bind i'.memory.slots? := by
  rw [Kernel.slots?_eq, Kernel.slots?_eq, peers.descriptor, peers.descriptor']
  cases start.kernel.descriptor.fieldIndex? field with
  | none => rfl
  | some n =>
    have bound := peers.binding n
    simp only [Option.bind_some]
    generalize i.kernel.bindings[n]?.join = b at bound ⊢
    generalize i'.kernel.bindings[n]?.join = b' at bound ⊢
    cases bound with
    | none => rfl
    | some mates =>
      cases mates with
      | scalar v | array _ => rfl
      | slots paired => exact (peers.memory.slots paired).symm

theorem mem_bindings (member : some b ∈ i.kernel.bindings) : ∃ b', h.Mates b b' := by
  have bindings := peers.bindings
  generalize i.kernel.bindings = l at bindings member
  generalize i'.kernel.bindings = l' at bindings
  induction bindings with
  | nil => cases member
  | cons first _ ih =>
    rcases List.mem_cons.mp member with rfl | member
    · cases first with
      | some mates => exact ⟨_, mates⟩
    · exact ih member

end

end Peers

end GridKernel
