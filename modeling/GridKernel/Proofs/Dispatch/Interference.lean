import GridKernel.Proofs.Dispatch.Requests

/-!
# Instances that share a dispatcher

Any number of instances use one dispatcher and one memory, one call after the other, and each binds
buffers and slots of its own. If transfers are implicit, or the others' kernels have other texts, an
instance gets the same answers and sees the same contents as if the others had made no calls.

With explicit transfers two instances of one text share the memory of its program: what one of them
uploads, the other one's launch reads.
-/

namespace GridKernel

variable {σ ι : Type} {acc : Accelerator σ}

/-! ## Sites -/

/-- Instances with the dispatcher and the memory that they share. -/
structure Site (σ ι : Type) where
  kernels : ι → Kernel
  dispatcher : Dispatcher σ
  memory : Memory

namespace Site

variable [DecidableEq ι]

def focus (s : Site σ ι) (x : ι) : Instance σ := ⟨s.kernels x, s.dispatcher, s.memory⟩

def put (s : Site σ ι) (x : ι) (i : Instance σ) : Site σ ι :=
  ⟨Function.update s.kernels x i.kernel, i.dispatcher, i.memory⟩

/-- A call on one of the instances, with its answer. -/
def call (s : Site σ ι) (x : ι) (r : Request) : Except KernelError (Option Device) × Site σ ι :=
  match r.perform (s.focus x) with
  | .ok a i => (.ok a, s.put x i)
  | .error e i => (.error e, s.put x i)

/-- Calls one after the other, with their answers. -/
def run (s : Site σ ι) :
    List (ι × Request) → List (ι × Except KernelError (Option Device)) × Site σ ι
  | [] => ([], s)
  | (x, r) :: rest =>
    let (answer, s) := s.call x r
    let (answers, s) := s.run rest
    ((x, answer) :: answers, s)

/-- The instances are bound to buffers and slots of their own, and run their own programs. -/
structure Proper (model : ProgramModel acc) (owner : BufferId → ι) (s : Site σ ι) : Prop where
  cached : s.dispatcher.Cached model
  placed : ∀ x, (s.focus x).Placed
  complete : ∀ x, (s.kernels x).bindings.length = (s.kernels x).descriptor.fields.length
  arrays : ∀ {x id}, some (.array id) ∈ (s.kernels x).bindings → owner id = x
  slots : ∀ {x a}, some (.slots a) ∈ (s.kernels x).bindings → a < s.memory.slots.size
  apart : ∀ {x y a}, some (.slots a) ∈ (s.kernels x).bindings →
    some (.slots a) ∈ (s.kernels y).bindings → x = y

/-- An instance beside the one that holds `h`. -/
structure Lodges (owner : BufferId → ι) (h : Holding) (s : Site σ ι) (x : ι) : Prop where
  placed : (s.focus x).Placed
  complete : (s.kernels x).bindings.length = (s.kernels x).descriptor.fields.length
  arrays : ∀ {id}, some (.array id) ∈ (s.kernels x).bindings → owner id = x
  slots : ∀ {a}, some (.slots a) ∈ (s.kernels x).bindings →
    a < s.memory.slots.size ∧ ∀ b, ¬h.pairs a b

/-- Two sites in which an instance is in the same situation. In the first one there may be others
beside it. -/
structure Beside (model : ProgramModel acc) (owner : BufferId → ι) (me : ι) (h : Holding)
    (s s' : Site σ ι) : Prop where
  owns : ∀ id, h.owns id ↔ owner id = me
  mine : Peers model h (s.focus me) s.dispatcher.lasting (s.focus me) (s'.focus me)
  others : ∀ x, x ≠ me → s.Lodges owner h x
  texts : s.dispatcher.config.transfer = .explicit → ∀ x, x ≠ me → ∀ {source source'},
    (s.kernels x).descriptor.compile = .ok source →
    (s.kernels me).descriptor.compile = .ok source' → source.text ≠ source'.text

variable {model : ProgramModel acc} {owner : BufferId → ι} {x : ι} {s s' : Site σ ι}

@[simp] theorem focus_put_self (s : Site σ ι) (x : ι) (i) : (s.put x i).focus x = i := by
  simp [focus, put]

@[simp] theorem kernels_put_self (s : Site σ ι) (x : ι) (i : Instance σ) :
    (s.put x i).kernels x = i.kernel := by
  simp [put]

theorem kernels_put_of_ne (other : y ≠ x) (s : Site σ ι) (i) :
    (s.put x i).kernels y = s.kernels y := by
  simp [put, other]

/-- A call on peers gives the same answer in both sites. -/
theorem call_peers (peers : Peers model h (s.focus x) s.dispatcher.lasting (s.focus x) (s'.focus x))
    (own : ∀ id, r.buffer? = some id → h.owns id) :
    ∃ h' j j', h.Grows h' s.memory.slots.size ∧
      Peers model h' (s.focus x) s.dispatcher.lasting j j' ∧ (s'.call x r).1 = (s.call x r).1 ∧
      (s.call x r).2 = s.put x j ∧ (s'.call x r).2 = s'.put x j' := by
  obtain ⟨h', grows, ended⟩ := peers.performs r own
  unfold call
  generalize r.perform (s.focus x) = e at ended ⊢
  generalize r.perform (s'.focus x) = e' at ended ⊢
  cases ended with
  | ok done =>
    obtain ⟨rfl, peers⟩ := done
    exact ⟨h', _, _, grows, peers, rfl, rfl, rfl⟩
  | error peers => exact ⟨h', _, _, grows, peers, rfl, rfl, rfl⟩

/-- A call on another instance leaves a lodger where it was. -/
theorem Lodges.put (lodges : s.Lodges owner h y) (other : y ≠ x)
    (ahead : Dispatcher.Ahead model (s.kernels x).descriptor s.dispatcher j.dispatcher)
    (size : s.memory.slots.size ≤ j.memory.slots.size)
    (pairs : ∀ {a b}, h'.pairs a b → h.pairs a b ∨ s.memory.slots.size ≤ a) :
    (s.put x j).Lodges owner h' y := by
  have kernel := kernels_put_of_ne other s j
  refine ⟨?_, ?_, ?_, ?_⟩
  · intro id runs
    change ((s.put x j).kernels y).state.backend? = _ at runs
    change ∃ source, ((s.put x j).kernels y).descriptor.compile = .ok source ∧ _
    rw [kernel] at runs ⊢
    obtain ⟨source, emits, found⟩ := lodges.placed id runs
    exact ⟨source, emits, ahead.kept found⟩
  · rw [kernel]
    exact lodges.complete
  · rw [kernel]
    exact lodges.arrays
  · rw [kernel]
    intro a bound
    obtain ⟨valid, foreign⟩ := lodges.slots bound
    refine ⟨Nat.lt_of_lt_of_le valid size, fun b paired => ?_⟩
    rcases pairs paired with old | new
    · exact foreign b old
    · exact absurd valid (Nat.not_lt.mpr new)

/-- After a call of its own an instance lodges as before, if it holds nothing of what `h` is. -/
theorem Lodges.of_peers (peers : Peers model h' start start.dispatcher.lasting i j)
    (owns : ∀ {id}, h'.owns id → owner id = x)
    (foreign : ∀ {a b'}, h'.pairs a b' → ∀ b, ¬h.pairs a b) : (s.put x i).Lodges owner h x := by
  refine ⟨?_, ?_, ?_, ?_⟩
  · rw [focus_put_self]
    exact peers.placed
  · rw [kernels_put_self, peers.descriptor]
    exact peers.complete
  · rw [kernels_put_self]
    intro id bound
    obtain ⟨_, mates⟩ := peers.mem_bindings bound
    cases mates with
    | array owned => exact owns owned
  · rw [kernels_put_self]
    intro a bound
    obtain ⟨_, mates⟩ := peers.mem_bindings bound
    cases mates with
    | slots paired => exact ⟨(peers.memory.valid paired).1, foreign paired⟩

namespace Beside

/-- A call of the instance itself, in both sites. -/
theorem own (beside : Beside model owner me h s s')
    (mine : ∀ id, r.buffer? = some id → owner id = me) :
    (s'.call me r).1 = (s.call me r).1 ∧
      ∃ h', Beside model owner me h' (s.call me r).2 (s'.call me r).2 := by
  obtain ⟨h', j, j', grows, peers, answer, after, after'⟩ :=
    call_peers beside.mine fun id bound => (beside.owns id).mpr (mine id bound)
  rw [after, after']
  refine ⟨answer, h', fun id => (grows.owns id).trans (beside.owns id), ?_, fun x other => ?_, ?_⟩
  · rw [focus_put_self, focus_put_self]
    exact peers.rebase
  · exact (beside.others x other).put other peers.serve.ahead peers.memory.size grows.pairs
  · intro explicit x other source source' emits translated'
    rw [kernels_put_of_ne other] at emits
    rw [kernels_put_self, peers.descriptor] at translated'
    have config : j.dispatcher.config = s.dispatcher.config := peers.serve.config
    exact beside.texts (config ▸ explicit) x other emits translated'

/-- A call of another instance, in the first site only. -/
theorem other (beside : Beside model owner me h s s') (different : x ≠ me)
    (theirs : ∀ id, r.buffer? = some id → owner id = x) :
    Beside model owner me h (s.call x r).2 s' := by
  have lodges := beside.others x different
  have cached : (s.focus x).dispatcher.Cached model := beside.mine.serve.ahead.cached
  have alone : Peers model ((s.kernels x).holding (owner · = x)) (s.focus x) s.dispatcher.lasting
      (s.focus x) (s.focus x) :=
    .self cached beside.mine.serve.impartial lodges.placed lodges.complete lodges.arrays
      fun bound => (lodges.slots bound).1
  obtain ⟨h', j, j', grows, peers, -, after, -⟩ := call_peers alone theirs
  have ahead := peers.serve.ahead
  have config : j.dispatcher.config = s.dispatcher.config := peers.serve.config
  have foreign : ∀ {a b}, h.pairs a b → ∀ b', ¬h'.pairs a b' := by
    intro a b paired b' theirs
    rcases grows.pairs theirs with ⟨-, bound⟩ | new
    · exact (lodges.slots bound).2 b paired
    · exact absurd (beside.mine.memory.valid paired).1 (Nat.not_lt.mpr new)
  have buffers : ∀ {id}, h.owns id → ¬h'.owns id := fun {id} mine theirs =>
    different (((grows.owns id).mp theirs).symm.trans ((beside.owns id).mp mine))
  have serve := beside.mine.serve.undisturbed ahead fun explicit _ emits _ translated' =>
    beside.texts explicit x different translated' emits
  have kernel := kernels_put_of_ne different.symm s j
  rw [after]
  refine ⟨beside.owns, ?_, fun y other => ?_, ?_⟩
  · have focused : (s.put x j).focus me = ⟨s.kernels me, j.dispatcher, j.memory⟩ := by
      rw [focus, kernel]
      rfl
    rw [focused]
    exact { beside.mine with
      descriptor := rfl
      descriptor' := beside.mine.descriptor'
      complete := beside.mine.complete
      state := beside.mine.state.mono ahead.kept fun found => found
      memory := beside.mine.memory.undisturbed peers.memory buffers foreign
      serve := serve }
  · by_cases same : y = x
    · subst same
      exact .of_peers peers (fun owned => (grows.owns _).mp owned)
        fun paired b mine => foreign mine _ paired
    · exact (beside.others y other).put same ahead peers.memory.size fun paired => .inl paired
  · intro explicit y other source source' emits translated'
    rw [kernel] at translated'
    by_cases same : y = x
    · subst same
      rw [kernels_put_self, peers.descriptor] at emits
      exact beside.texts (config ▸ explicit) y other emits translated'
    · rw [kernels_put_of_ne same] at emits
      exact beside.texts (config ▸ explicit) y other emits translated'

/-- Whatever the others do, the instance gets the answers that it would get without them. -/
theorem run (beside : Beside model owner me h s s')
    (own : ∀ c ∈ calls, ∀ id, c.2.buffer? = some id → owner id = c.1) :
    (s.run calls).1.filter (·.1 = me) = (s'.run (calls.filter (·.1 = me))).1 ∧
      ∃ h', Beside model owner me h' (s.run calls).2 (s'.run (calls.filter (·.1 = me))).2 := by
  induction calls generalizing s s' h with
  | nil => exact ⟨rfl, h, beside⟩
  | cons c rest ih =>
    obtain ⟨x, r⟩ := c
    have theirs := own (x, r) List.mem_cons_self
    have later := fun c member => own c (List.mem_cons_of_mem (x, r) member)
    by_cases same : x = me
    · subst same
      obtain ⟨answer, h', beside⟩ := beside.own theirs
      obtain ⟨answers, final⟩ := ih beside later
      simp only [Site.run, decide_true, List.filter_cons_of_pos, answer, answers]
      exact ⟨trivial, final⟩
    · obtain ⟨answers, final⟩ := ih (beside.other same theirs) later
      simp only [Site.run, same, decide_false, Bool.false_eq_true, not_false_eq_true,
        List.filter_cons_of_neg]
      exact ⟨answers, final⟩

end Beside

/-- What the host sees of an instance, apart from buffers. -/
structure Sight where
  state : String
  device : Option Device
  passId : Int32
  lastReport : Option Report
  slots : String → Option SlotArray

def sight (s : Site σ ι) (x : ι) : Sight where
  state := (s.kernels x).state.text
  device := (s.kernels x).device?
  passId := (s.kernels x).passId
  lastReport := (s.kernels x).lastReport
  slots field := ((s.kernels x).slots? field).bind s.memory.slots?

omit [DecidableEq ι] in
theorem Beside.sight_eq (beside : Beside model owner me h s s') : s.sight me = s'.sight me := by
  have peers := beside.mine
  have state : (s.kernels me).state.text = (s'.kernels me).state.text ∧
      (s.kernels me).device? = (s'.kernels me).device? := peers.state_eq
  have passId : (s'.kernels me).passId = (s.kernels me).passId := peers.passId
  have lastReport : (s'.kernels me).lastReport = (s.kernels me).lastReport := peers.lastReport
  have slots : ∀ field, ((s.kernels me).slots? field).bind s.memory.slots? =
      ((s'.kernels me).slots? field).bind s'.memory.slots? := peers.slots_eq
  rw [sight, sight, state.1, state.2, funext slots, passId, lastReport]

/-- Instances that are bound to buffers and slots of their own do not interfere if transfers are
implicit or their texts differ: with the calls of the others left out, an instance gets the same
answers, and the host sees the same of it and of its buffers. The turns of a pool's workers must not
depend on which storage they work on. -/
theorem instances_do_not_interfere (me : ι) (calls : List (ι × Request))
    (proper : s.Proper model owner) (impartial : s.dispatcher.host.pool.Impartial)
    (own : ∀ c ∈ calls, ∀ id, c.2.buffer? = some id → owner id = c.1)
    (apart : s.dispatcher.config.transfer = .implicit ∨ ∀ x, x ≠ me → ∀ source source',
      (s.kernels x).descriptor.compile = .ok source →
      (s.kernels me).descriptor.compile = .ok source' → source.text ≠ source'.text) :
    let full := s.run calls
    let alone := s.run (calls.filter (·.1 = me))
    full.1.filter (·.1 = me) = alone.1 ∧ full.2.sight me = alone.2.sight me ∧
      ∀ id, owner id = me → full.2.memory.buffer? id = alone.2.memory.buffer? id := by
  have cached : (s.focus me).dispatcher.Cached model := proper.cached
  have beside : Beside model owner me ((s.kernels me).holding (owner · = me)) s s := {
    owns := fun _ => Iff.rfl
    mine := .self cached impartial (proper.placed me) (proper.complete me) proper.arrays proper.slots
    others := fun x other => ⟨proper.placed x, proper.complete x, proper.arrays, fun bound =>
      ⟨proper.slots bound, fun _ mine => other (proper.apart bound mine.2)⟩⟩
    texts := fun explicit x other source source' emits translated' => by
      rcases apart with implicit | apart
      · rw [implicit] at explicit
        cases explicit
      · exact apart x other source source' emits translated' }
  obtain ⟨answers, h, final⟩ := beside.run own
  refine ⟨answers, final.sight_eq, fun id mine => ?_⟩
  exact (final.mine.memory.buffers ((final.owns id).mpr mine)).symm

/-! ## Twins -/

/-- A kernel that writes an array and counts its work-items. -/
def tally : Descriptor where
  name := "Tally"
  fields := [⟨"a", .scalar .int, .array, .global, .readWrite⟩,
    ⟨"hits", .atomic .int, .array, .global, .readWrite⟩]
  main := {
    name := "run"
    body := [
      .expr (.assign (.element "a" (.globalId 0)) none (.int 7)),
      .expr (.atomic .inc ⟨"hits", some (.globalId 0)⟩ [])] }
  helpers := []

/-- Two instances of one kernel, each with an array of its own. The accelerator raises every byte by
one. -/
def twins (mode : TransferMode) : Site Scripted Bool where
  kernels x := { descriptor := tally, bindings := [some (.array (if x then 0 else 1)), none] }
  dispatcher :=
    { config := { devices := [.accelerator], transfer := mode }
      accelerator := some Scripted.accelerator
      device := {}
      host := { steps := 40 } }
  memory := { buffers := #[⟨.int, #[1]⟩, ⟨.int, #[100]⟩] }

theorem twins_proper (mode) :
    (twins mode).Proper (Scripted.programModel {}) (· == 0) where
  cached := ⟨fun _ same => (Option.some.inj same).symm, ⟨rfl, fun _ _ _ => rfl⟩, nofun, nofun⟩
  placed _ _ runs := nomatch runs
  complete _ := rfl
  arrays {x id} bound := by
    cases x <;> simp_all [twins]
  slots {x a} bound := by simp [twins] at bound
  apart {x y a} bound := by simp [twins] at bound

/-- One work-item. -/
def single : Range := ⟨[1], none, Range.single_bounded⟩

/-- Both bind their fields, the second one first, and execute. -/
def taken : List (Bool × Request) :=
  [(false, .bindSlots "hits" 1), (true, .bind "a" 0 .int), (true, .bindSlots "hits" 1),
    (false, .execute single), (true, .execute single)]

/-- With implicit transfers twins share a program, and their slots get other numbers than alone. -/
theorem twins_execute_apart :
    (twins .implicit).Proper (Scripted.programModel {}) (· == 0) ∧
      (twins .implicit).dispatcher.host.pool.Impartial ∧
      (((twins .implicit).run taken).2.kernels true).slots? "hits" = some 1 ∧
      (((twins .implicit).run (taken.filter (·.1 = true))).2.kernels true).slots? "hits" = some 0 ∧
      ((twins .implicit).run taken).2.dispatcher.programs.length = 1 ∧
      ((twins .implicit).run taken).2.memory.buffer? 0 = some ⟨.int, #[16843010]⟩ ∧
      ((twins .implicit).run taken).2.sight true =
        ((twins .implicit).run (taken.filter (·.1 = true))).2.sight true := by
  have apart := instances_do_not_interfere true taken (twins_proper .implicit)
    Pool.inOrder_impartial (by decide) (.inl rfl)
  exact ⟨twins_proper .implicit, Pool.inOrder_impartial, by decide +kernel, by decide +kernel, by decide +kernel,
    by decide +kernel, apart.2.1⟩

/-- One uploads its array, then the other one its own; the first one executes and downloads. -/
def crossed : List (Bool × Request) :=
  [(true, .bindSlots "hits" 1), (true, .upload "a"), (false, .upload "a"),
    (true, .execute single), (true, .download "a")]

/-- With explicit transfers the array of one instance comes back as that of its twin. -/
theorem twin_uploads_cross :
    (twins .explicit).Proper (Scripted.programModel {}) (· == 0) ∧
      (∀ c ∈ crossed, c.2.buffer? = none) ∧
      ((twins .explicit).run (crossed.filter (·.1 = true))).2.memory.buffer? 0 =
        some ⟨.int, #[16843010]⟩ ∧
      ((twins .explicit).run crossed).2.memory.buffer? 0 = some ⟨.int, #[16843109]⟩ := by
  exact ⟨twins_proper .explicit, by decide, by decide +kernel, by decide +kernel⟩

end Site

end GridKernel
