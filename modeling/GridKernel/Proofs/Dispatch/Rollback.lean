import GridKernel.Device.Scripted
import GridKernel.Proofs.Dispatch.Bindings
import GridKernel.Proofs.Dispatch.Untouched
import GridKernel.Proofs.Kernel.Build
import GridKernel.Proofs.Launch.Pools
import GridKernel.Proofs.Memory.Snapshot

/-!
# Failed executions leave no trace

An execution can fail at any of its steps: a field is not bound, the range or the kernel is
refused, the accelerator fails or sends back images that do not fit, a work-item stops, or the
retry on a later device fails too. A run changes memory only where the snapshot covers it, so every
failure ends with the memory, the bindings, the pass number and the report from before.
-/

namespace GridKernel

open List Outcome Ensures

/-! ## What a run on the host changes -/

variable {bound : List Bound}

namespace Schema

variable {s : Schema}

/-- Methods store only into fields with the direction `readWrite`. -/
theorem build_writable (built : s.build = .ok d) {name : String} {id : BufferId}
    (written : name ∈ Method.writtenFields d.methods) (index : d.fieldIndex? name = some i)
    (found : bound[i]? = some (.array id)) : Bound.Writable d bound id := by
  obtain ⟨inBounds, named, -⟩ := findIdx?_eq_some_iff_getElem.mp index
  have declared : d.fields[i]? = some d.fields[i] := getElem?_eq_getElem inBounds
  refine ⟨i, d.fields[i], declared, ?_, found⟩
  rw [build_isWritten built declared, eq_of_beq named]
  exact written

end Schema

theorem Method.writesOnly {methods : List Method} (member : m ∈ methods) :
    WritesOnly (· ∈ writtenFields methods) (Stmt.allNodes m.body) := by
  intro e node name writes
  exact mem_flatMap.mpr ⟨m, member, mem_filterMap.mpr ⟨e, node, writes⟩⟩

/-- Evaluation changes only what the snapshot covers. -/
theorem Eval.changes_framed {s : Schema} {c : Context} (built : s.build = .ok c.descriptor) :
    Framed c (· ∈ Method.writtenFields c.descriptor.methods)
      (Memory.Changes c.descriptor c.bound) where
  refl := .refl
  trans := .trans
  store written index found m k v :=
    .modifyBuffer (Schema.build_writable built written index found) fun b _ => b.type_store k v
  perform {_ _ _ _ _ s _ _ after _} _ _ found held performed := by
    refine .modifySlots (mem_of_getElem? found) fun s' held' => ?_
    obtain rfl : s = s' := Option.some.inj (held.symm.trans held')
    exact SlotArray.perform?_shape performed

theorem Launch.Reaches.changes {s : Schema} {l : Launch} (built : s.build = .ok l.descriptor)
    (h : l.Reaches m m') : Memory.Changes l.descriptor l.bound m m' :=
  h.moves (Eval.changes_framed (c := l.context 0) built) fun _ member => Method.writesOnly member

/-! ## What a run on the accelerator changes -/

/-- What moves belongs to a field. -/
theorem Descriptor.transfers_bound {d : Descriptor} {t : Transfer} (member : t ∈ d.transfers bound)
    :
    ∃ i : Nat, d.fields[i]? = some t.field ∧ bound[i]? = some t.bound := by
  obtain ⟨⟨param, arg⟩, -, taken⟩ := mem_filterMap.mp member
  cases param with
  | length i | passId => cases taken
  | field i =>
    obtain ⟨f, declared, taken⟩ := Option.bind_eq_some_iff.mp taken
    obtain ⟨b, found, taken⟩ := Option.bind_eq_some_iff.mp taken
    obtain ⟨-, same⟩ := Option.ite_none_right_eq_some.mp taken
    obtain rfl := Option.some.inj same
    exact ⟨i, declared, found⟩

theorem Buffer.type_ofImage {b loaded : Buffer} (h : b.ofImage bytes = .ok loaded) :
    loaded.type = b.type := by
  obtain ⟨-, h⟩ := ite_eq_ok.mp h
  cases h
  rfl

theorem length_chunksOf (size n bytes) : (chunksOf size n bytes).length = n := by
  induction n generalizing bytes with
  | zero => rfl
  | succ n ih => exact congrArg (· + 1) (ih _)

theorem SlotArray.shape_ofImage {s loaded : SlotArray} (h : s.ofImage bytes = .ok loaded) :
    loaded.shape = s.shape := by
  obtain ⟨-, h⟩ := ite_eq_ok.mp h
  cases h
  simp [shape, size, length_chunksOf]

/-- An image for a field that the kernel writes changes only what the snapshot covers. -/
theorem Memory.loadImage_changes {d : Descriptor} {i : Nat} {f : Field} {b : Bound} {m m' : Memory}
    (declared : d.fields[i]? = some f) (written : f.isWritten = true) (found : bound[i]? = some b)
    (h : m.loadImage b bytes = .ok m') : Changes d bound m m' := by
  cases b with
  | scalar v =>
    cases h
    exact .refl m
  | array id =>
    simp only [loadImage, buffer?] at h
    split at h
    · cases h
      exact .refl m
    · rename_i buffer held
      obtain ⟨loaded, fits, h⟩ := bind_eq_ok.mp h
      obtain rfl := pure_eq_ok.mp h
      refine .modifyBuffer ⟨i, f, declared, written, found⟩ fun b held' => ?_
      obtain rfl : buffer = b := Option.some.inj (held.symm.trans held')
      exact Buffer.type_ofImage (mapError_eq_ok.mp fits)
  | slots id =>
    simp only [loadImage, slots?] at h
    split at h
    · cases h
      exact .refl m
    · rename_i slots held
      obtain ⟨loaded, fits, h⟩ := bind_eq_ok.mp h
      obtain rfl := pure_eq_ok.mp h
      refine .modifySlots (mem_of_getElem? found) fun s held' => ?_
      obtain rfl : slots = s := Option.some.inj (held.symm.trans held')
      exact SlotArray.shape_ofImage (mapError_eq_ok.mp fits)

variable {σ α β ε : Type}

/-- The same kernel instance, memory and host; all else of the dispatcher may have changed. -/
structure Instance.Unmoved (i j : Instance σ) : Prop where
  kernel : j.kernel = i.kernel
  memory : j.memory = i.memory
  host : j.dispatcher.host = i.dispatcher.host

variable {i j : Instance σ}

theorem Instance.Unmoved.trans (first : Unmoved i j) (second : Unmoved j k) : Unmoved i k :=
  ⟨second.kernel.trans first.kernel, second.memory.trans first.memory,
    second.host.trans first.host⟩

namespace Action

open Instance

/-- However the action ends, it leaves the kernel instance, the memory and the host alone. -/
def Leaves (x : Action σ α) : Prop :=
  ∀ i, Ensures x i (fun _ j => Unmoved i j) fun _ j => Unmoved i j

/-- The kernel instance, the memory and the host as one part. -/
theorem Leaves.of_keeps {x : Action σ α}
    (h : Keeps (fun i => (i.kernel, i.memory, i.dispatcher.host)) x) : Leaves x := by
  intro i
  have unmoved : ∀ {j : Instance σ}, (j.kernel, j.memory, j.dispatcher.host) =
      (i.kernel, i.memory, i.dispatcher.host) → Unmoved i j := fun same =>
    ⟨congrArg Prod.fst same, congrArg (·.2.1) same, congrArg (·.2.2) same⟩
  exact (h i).imp (fun _ _ => unmoved) fun _ _ => unmoved

theorem unmoved_steady :
    Steady fun i : Instance σ => (i.kernel, i.memory, i.dispatcher.host) :=
  ⟨fun _ _ => rfl, fun _ _ _ => rfl⟩

theorem onDevice_leaves (ask : Accelerator σ → DeviceAction σ α) : Leaves (onDevice ask) :=
  .of_keeps (unmoved_steady.asks ask)

theorem program_leaves (source) : Leaves (program source : Action σ ProgramId) :=
  .of_keeps (unmoved_steady.builds source)

theorem compileFor_leaves (devices) : Leaves (compileFor devices : Action σ Backend) :=
  .of_keeps (unmoved_steady.compiles devices)

theorem uploadAll_leaves (program ts) : Leaves (uploadAll program ts : Action σ Unit) :=
  .of_keeps (unmoved_steady.uploads program ts)

/-- The images that come back are those of the fields asked for. -/
theorem downloadAll_ensures (program : ProgramId) (ts : List Descriptor.Transfer)
    (i : Instance σ) :
    Ensures (downloadAll program ts) i
      (fun images j => Unmoved i j ∧ ∀ p ∈ images, ∃ t ∈ ts, p.1 = t.bound)
      fun _ j => Unmoved i j := by
  induction ts generalizing i with
  | nil => exact ret ⟨⟨rfl, rfl, rfl⟩, nofun⟩
  | cons t rest ih =>
    refine andThen (onDevice_leaves _ i) fun bytes j first => ?_
    refine andThen ((ih j).imp (fun _ _ h => h) fun _ _ later => first.trans later) ?_
    rintro images k ⟨later, asked⟩
    refine ret ⟨first.trans later, forall_mem_cons.mpr ⟨?_, fun p member => ?_⟩⟩
    · exact ⟨t, mem_cons_self, rfl⟩
    · obtain ⟨t', member', same⟩ := asked p member
      exact ⟨t', mem_cons_of_mem t member', same⟩

/-! ## Runs -/

/-- The same kernel instance and host; the memory changed only where a launch may change it. -/
structure Moved (l : Launch) (i j : Instance σ) : Prop where
  kernel : j.kernel = i.kernel
  memory : Memory.Changes l.descriptor l.bound i.memory j.memory
  host : j.dispatcher.host = i.dispatcher.host

theorem Moved.trans (first : Moved l i j) (second : Moved l j k) : Moved l i k :=
  ⟨second.kernel.trans first.kernel, first.memory.trans second.memory,
    second.host.trans first.host⟩

theorem Moved.of_unmoved (h : Unmoved i j) : Moved l i j :=
  ⟨h.kernel, by rw [h.memory]; exact .refl _, h.host⟩

/-- While the instance executes, others leave it, the memory and the host alone. They may use the
dispatcher for anything else. -/
def Quiet (meanwhile : Instance σ → Instance σ) : Prop :=
  ∀ i b, i.kernel.state = .executing b → Unmoved i (meanwhile i)

/-- The launch belongs to a kernel that was built, and its slots hold values of their width. -/
structure Launchable (s : Schema) (l : Launch) (m : Memory) : Prop where
  built : s.build = .ok l.descriptor
  canonical : ∀ id slots, Bound.slots id ∈ l.bound → m.slots[id]? = some slots → slots.Canonical

variable {s : Schema} {meanwhile : Instance σ → Instance σ}

theorem loadAll_ensures (images : List (Bound × List UInt8))
    (written : ∀ p ∈ images, ∃ (n : Nat) (f : Field), l.descriptor.fields[n]? = some f ∧
      f.isWritten = true ∧ l.bound[n]? = some p.1) (i : Instance σ) :
    Ensures (loadAll images) i (fun _ j => Moved l i j) fun _ j => Moved l i j := by
  induction images generalizing i with
  | nil => exact ret ⟨rfl, .refl _, rfl⟩
  | cons p rest ih =>
    obtain ⟨n, f, declared, isWritten, found⟩ := written p mem_cons_self
    have loaded : Ensures (load p.1 p.2) i (fun _ j => Moved l i j) fun _ j => Moved l i j := by
      refine fromState ?_
      cases image : i.memory.loadImage p.1 p.2 with
      | error fault => exact thrown ⟨rfl, .refl _, rfl⟩
      | ok m => exact ⟨rfl, Memory.loadImage_changes declared isWritten found image, rfl⟩
    refine andThen loaded fun _ j first => ?_
    have later := ih (fun q member => written q (mem_cons_of_mem p member)) j
    exact later.imp (fun _ _ => first.trans) fun _ _ => first.trans

/-- A launch between the upload of some fields and the download of those among them that are
written. -/
theorem exchange_ensures (quiet : Quiet meanwhile) (program : ProgramId) (args : List LaunchArg)
    {fields : List Descriptor.Transfer} (bound : ∀ t ∈ fields, t ∈ l.descriptor.transfers l.bound)
    (executing : i.kernel.state = .executing b) :
    Ensures (do
        uploadAll program fields
        modify meanwhile
        onDevice (·.launch program args l.range l.localSize)
        let images ← downloadAll program (fields.filter (·.field.isWritten))
        loadAll images) i (fun _ j => Moved l i j) fun _ j => Moved l i j := by
  refine andThen ((uploadAll_leaves program fields i).imp (fun _ _ h => h)
    fun _ _ h => .of_unmoved h) fun _ j uploaded => ?_
  have undisturbed := uploaded.trans (quiet j b (uploaded.kernel ▸ executing))
  refine changed ?_
  refine andThen ((onDevice_leaves _ _).imp (fun _ _ h => undisturbed.trans h)
    fun _ _ h => .of_unmoved (undisturbed.trans h)) fun _ k launched => ?_
  refine andThen ((downloadAll_ensures program _ k).imp (fun _ _ h => h)
    fun _ _ h => .of_unmoved (launched.trans h)) ?_
  rintro images n ⟨downloaded, asked⟩
  have moved : Moved l i n := .of_unmoved (launched.trans downloaded)
  refine (loadAll_ensures images ?_ n).imp (fun _ _ => moved.trans) fun _ _ => moved.trans
  intro p member
  obtain ⟨t, chosen, same⟩ := asked p member
  obtain ⟨member', written⟩ := mem_filter.mp chosen
  obtain ⟨index, declared, found⟩ := Descriptor.transfers_bound (bound t member')
  exact ⟨index, t.field, declared, written, same ▸ found⟩

theorem runOnDevice_ensures (quiet : Quiet meanwhile) (program)
    (executing : i.kernel.state = .executing b) :
    Ensures (runOnDevice meanwhile program l) i (fun _ j => Moved l i j)
      fun _ j => Moved l i j := by
  refine fromState ?_
  cases i.dispatcher.config.transfer with
  | implicit => exact exchange_ensures quiet program _ (fun _ member => member) executing
  | explicit => exact exchange_ensures quiet program _ (forall_mem_nil _) executing

/-- What a run on the host does with its outcome. -/
def concludes (device : Device) (r : Memory × Option RunFault) : Action σ Unit := do
  setMemory r.1
  match r.2 with
  | none => return ()
  | some fault => throw (.execution device (.stopped fault))

theorem runOnHost_eq (device : Device) (i : Instance σ) : runOnHost device l i = concludes device
    (l.onHost device i.dispatcher.host i.dispatcher.config i.memory) i := by
  cases device <;> rfl

/-- Workers of a pool that joins have stored all they store when the run ends. -/
theorem runOnHost_ensures (built : s.build = .ok l.descriptor)
    (joins : i.dispatcher.host.pool.Joins) (device : Device) :
    Ensures (runOnHost device l) i (fun _ j => Moved l i j) fun _ j => Moved l i j := by
  have changes :=
    (Launch.onHost_reaches joins l device i.dispatcher.config i.memory).changes built
  unfold Ensures
  rw [runOnHost_eq]
  generalize l.onHost device _ _ _ = r at changes ⊢
  obtain ⟨m, _ | fault⟩ := r
  · exact ⟨rfl, changes, rfl⟩
  · exact ⟨rfl, changes, rfl⟩

/-- Runs on a backend, without putting anything back. -/
def start (meanwhile : Instance σ → Instance σ) (b : Backend) (l : Launch) : Action σ Unit :=
  match b with
  | .accelerator program => runOnDevice meanwhile program l
  | .host device => runOnHost device l

theorem start_ensures (quiet : Quiet meanwhile) (joins : i.dispatcher.host.pool.Joins)
    (built : s.build = .ok l.descriptor) (executing : i.kernel.state = .executing b) (backend) :
    Ensures (start meanwhile backend l) i (fun _ j => Moved l i j) fun _ j => Moved l i j := by
  cases backend with
  | accelerator program => exact runOnDevice_ensures quiet program executing
  | host device => exact runOnHost_ensures built joins device

/-- A run that fails puts everything back. -/
theorem run_ensures (ready : Launchable s l i.memory)
    (ran : Ensures (start meanwhile backend l) i (fun _ j => Moved l i j) fun _ j => Moved l i j) :
    Ensures (run meanwhile backend l) i (fun _ _ => True) fun _ j => Unmoved i j := by
  refine fromState (andThen (attempt_ensures ran) fun outcome j moved => ?_)
  cases outcome with
  | ok _ => exact ret trivial
  | error e =>
    refine fromState (changed (thrown ⟨moved.kernel, ?_, moved.host⟩))
    exact Snapshot.restore_capture moved.memory ready.canonical

/-- A run that fails puts everything back, the retry included. -/
theorem runWithRetry_ensures (quiet : Quiet meanwhile) (joins : i.dispatcher.host.pool.Joins)
    (ready : Launchable s l i.memory) (executing : i.kernel.state = .executing b) (backend) :
    Ensures (runWithRetry meanwhile backend l) i
      (fun r j => ∀ e, r.outcome = .error e → Unmoved i j) fun _ j => Unmoved i j := by
  have started := start_ensures quiet joins ready.built executing backend
  refine andThen (attempt_ensures (run_ensures ready started)) ?_
  intro first j restored
  cases first with
  | ok _ =>
    refine ret fun e failed => ?_
    cases failed
  | error e =>
    refine fromState ?_
    dsimp only at restored ⊢
    split
    · refine andThen (attempt_ensures (compileFor_leaves _ j)) fun next k compiled => ?_
      cases next with
      | error e => exact ret fun _ _ => restored.trans compiled
      | ok next =>
        have same : Unmoved i k := restored.trans compiled
        have again := start_ensures quiet (same.host ▸ joins) ready.built
          (by rw [same.kernel]; exact executing) next
        refine andThen (attempt_ensures (run_ensures (same.memory.symm ▸ ready) again)) fun second n ended => ?_
        refine ret fun e failed => ?_
        subst failed
        exact same.trans ended
    · exact ret fun _ _ => restored

theorem acquire_ensures (i : Instance σ) :
    Ensures acquire i
      (fun p j => j.memory = i.memory ∧ j.kernel = { i.kernel with state := .executing p.1 } ∧
        j.dispatcher.host = i.dispatcher.host)
      fun _ j => Unmoved i j := by
  refine fromState ?_
  cases i.kernel.state with
  | executing b => exact thrown ⟨rfl, rfl, rfl⟩
  | compiled b | idle b => exact ⟨rfl, rfl, rfl⟩
  | uncompiled =>
    refine andThen (compileFor_leaves _ i) fun b j compiled => ?_
    refine ⟨compiled.memory, ?_, compiled.host⟩
    change { j.kernel with state := .executing b } = _
    rw [compiled.kernel]

/-! ## Executions -/

theorem ofExcept_ensures (error : ε → KernelError) (r : Except ε α) (i : Instance σ) :
    Ensures (ofExcept error r) i (fun a j => j = i ∧ r = .ok a) fun _ j => j = i := by
  cases r with
  | ok a => exact ret ⟨rfl, rfl⟩
  | error e => exact thrown rfl

/-- An instance that executes refuses to execute again. -/
theorem execute_refused (executing : i.kernel.state = .executing b)
    (meanwhile : Instance σ → Instance σ) (range : Range) :
    Ensures (execute meanwhile range) i (fun _ _ => False) fun _ j => j = i := by
  have busy : Ensures acquire i (fun _ _ => False) fun _ j => j = i := by
    refine fromState ?_
    rw [executing]
    exact thrown rfl
  refine fromState ?_
  refine andThen (ofExcept_ensures _ _ i) ?_
  rintro bound _ ⟨rfl, -⟩
  refine andThen (ofExcept_ensures _ _ _) ?_
  rintro size _ ⟨rfl, -⟩
  exact andThen busy fun _ _ impossible => impossible.elim

/-- The instance after an attempt to execute it. -/
def executed (range : Range) (i : Instance σ) : Instance σ :=
  match execute id range i with
  | .ok _ j => j
  | .error _ j => j

theorem executed_quiet (range) : Quiet (executed range : Instance σ → Instance σ) := by
  intro i b executing
  have refused := execute_refused executing id range
  unfold executed
  unfold Ensures at refused
  split
  · rename_i ended
    rw [ended] at refused
    exact refused.elim
  · rename_i ended
    rw [ended] at refused
    subst refused
    exact ⟨rfl, rfl, rfl⟩

/-- All of an instance that an execution counts for: the memory, the bindings, the number of the
next pass and the last report. -/
structure Restored (i j : Instance σ) : Prop where
  memory : j.memory = i.memory
  descriptor : j.kernel.descriptor = i.kernel.descriptor
  bindings : j.kernel.bindings = i.kernel.bindings
  passId : j.kernel.passId = i.kernel.passId
  lastReport : j.kernel.lastReport = i.kernel.lastReport

theorem Restored.of_unmoved (h : Unmoved i j) : Restored i j := by
  obtain ⟨kernel, memory, -⟩ := h
  exact ⟨memory, by rw [kernel], by rw [kernel], by rw [kernel], by rw [kernel]⟩

theorem Restored.after (first : Restored i j) (second : Restored j k) :
    Restored i k where
  memory := second.memory.trans first.memory
  descriptor := second.descriptor.trans first.descriptor
  bindings := second.bindings.trans first.bindings
  passId := second.passId.trans first.passId
  lastReport := second.lastReport.trans first.lastReport

theorem execute_ensures (quiet : Quiet meanwhile) (joins : i.dispatcher.host.pool.Joins)
    (built : s.build = .ok d) (made : i.kernel.Made d i.memory) (range : Range) :
    Ensures (execute meanwhile range) i (fun _ _ => True) fun _ j => Restored i j := by
  have unmoved : Restored i i := .of_unmoved ⟨rfl, rfl, rfl⟩
  refine fromState ?_
  refine andThen ((ofExcept_ensures _ _ i).imp (fun _ _ h => h) ?_) ?_
  · rintro _ _ rfl
    exact unmoved
  rintro bound _ ⟨rfl, complete⟩
  refine andThen ((ofExcept_ensures _ _ _).imp (fun _ _ h => h) ?_) ?_
  · rintro _ _ rfl
    exact unmoved
  rintro size i ⟨rfl, -⟩
  refine andThen ((acquire_ensures i).imp (fun _ _ h => h) fun _ _ h => .of_unmoved h) ?_
  rintro ⟨b, compiled⟩ j ⟨memory, kernel, host⟩
  refine fromState ?_
  have acquired : Restored i j := by
    refine ⟨memory, ?_, ?_, ?_, ?_⟩ <;> rw [kernel]
  have executing : j.kernel.state = .executing b := by rw [kernel]
  have ready : Launchable s ⟨i.kernel.descriptor, bound, range, size, j.kernel.passId⟩
      j.memory := by
    rw [memory, made.descriptor]
    exact ⟨built, fun _ _ member held => made.canonical complete member held⟩
  have ran := runWithRetry_ensures quiet (host ▸ joins) ready executing b
  refine andThen (ran.imp (fun _ _ h => h) fun _ _ h => acquired.after (.of_unmoved h)) ?_
  intro r k restored
  refine changed ?_
  cases ended : r.outcome with
  | ok _ => exact changed (modified trivial)
  | error e =>
    -- Only the state of the instance differs: it is idle now.
    have same := acquired.after (.of_unmoved (restored e ended))
    exact ⟨same.memory, same.descriptor, same.bindings, same.passId, same.lastReport⟩

/-- An execution that fails, on whatever devices it was tried and wherever it failed, leaves the
memory, the bindings, the pass number and the last report as they were. Workers of a pool may take
turns in any way, as long as all of them have ended when the pool returns. -/
theorem failed_execution_leaves_no_trace {schema : Schema} {d : Descriptor} {i i' : Instance σ}
    {range : Range} {e : KernelError} (built : schema.build = .ok d)
    (made : i.kernel.Made d i.memory) (joins : i.dispatcher.host.pool.Joins)
    (quiet : Quiet meanwhile) (failed : execute meanwhile range i = .error e i') :
    i'.memory = i.memory ∧ i'.kernel.descriptor = i.kernel.descriptor ∧
      i'.kernel.bindings = i.kernel.bindings ∧ i'.kernel.passId = i.kernel.passId ∧
      i'.kernel.lastReport = i.kernel.lastReport := by
  have restored := (execute_ensures quiet joins built made range).of_error failed
  exact ⟨restored.memory, restored.descriptor, restored.bindings, restored.passId,
    restored.lastReport⟩

/-- Every work-item counts itself, stores into its own element of one array and into the next
element of the other. -/
def pairMain : Method where
  name := "run"
  body := [
    .expr (.atomic .inc ⟨"count", none⟩ []),
    .expr (.assign (.element "left" (.globalId 0)) none (.int 7)),
    .expr (.assign (.element "right" (.binary .add (.globalId 0) (.int 1))) none (.int 8))]

def pairSchema : Schema where
  name := "Pair"
  fields := [
    { name := "left", type := .scalar .int, shape := .array },
    { name := "right", type := .scalar .int, shape := .array },
    { name := "count", type := .atomic .int }]
  methods := [pairMain]

/-- Both arrays share a buffer of two elements. The accelerator sends back the first of them whole
and the second one short, so that the kernel runs once more on the host. There a worker goes on when
the other one has stopped. -/
def pairInstance : Instance Scripted where
  kernel :=
    { descriptor := ⟨"Pair", [⟨"left", .scalar .int, .array, .global, .readWrite⟩,
        ⟨"right", .scalar .int, .array, .global, .readWrite⟩,
        ⟨"count", .atomic .int, .scalar, .global, .readWrite⟩], pairMain, []⟩
      bindings := [some (.array 0), some (.array 0), some (.slots 0)]
      passId := 5 }
  dispatcher :=
    { config := { devices := [.accelerator, .pool], fallback := .fallBack }
      accelerator := some Scripted.accelerator
      device := { script := { shortDownload := [1] } }
      host := { steps := 40, parallelism := 2, pool := .onward } }
  memory := { buffers := #[⟨.int, #[3, 4]⟩], slots := #[⟨.int, .global, #[0]⟩] }

theorem pairInstance_made :
    pairInstance.kernel.Made pairInstance.kernel.descriptor pairInstance.memory := by
  let new := Kernel.new pairInstance.kernel.descriptor { buffers := #[⟨.int, #[3, 4]⟩] }
  let left := new.1.setBinding 0 (.array 0)
  have held : new.2.buffers[0]? = some ⟨.int, #[3, 4]⟩ := rfl
  have first : new.1.bind "left" 0 .int = .ok left := rfl
  have second : left.bind "right" 0 .int = .ok (left.setBinding 1 (.array 0)) := rfl
  exact .proceed (.bind (.bind (.new _) held first) held second) rfl rfl (.refl _)

/-- The device and the work-item that ended an execution. -/
def stoppedAt? : EStateM.Result KernelError (Instance σ) Unit → Option (Device × RunFault)
  | .error (.execution device (.stopped fault)) _ => some (device, fault)
  | _ => none

/-- The image of the second array does not fit after that of the first was loaded, while the instance
is asked to execute once more. Then the second work-item is out of bounds, and the first one stores
after that. -/
theorem failed_retry_leaves_no_trace :
    let range : Range := ⟨[2], none, by decide⟩
    let d := pairInstance.kernel.descriptor
    let ended := execute (executed range) range pairInstance
    pairSchema.build = .ok d ∧ pairInstance.kernel.Made d pairInstance.memory ∧
      pairInstance.dispatcher.host.pool.Joins ∧
      Quiet (executed range : Instance Scripted → Instance Scripted) ∧
      stoppedAt? ended =
        some (.pool, ⟨⟨1, 0, 0⟩, .trap (.outOfBounds 2 "right" 2)⟩) ∧
      ∃ e i', ended = .error e i' ∧ i'.memory = pairInstance.memory ∧
        i'.kernel.bindings = pairInstance.kernel.bindings ∧ i'.kernel.passId = 5 ∧
        i'.kernel.lastReport = none := by
  intro range d ended
  have built : pairSchema.build = .ok d := rfl
  have quiet : Quiet (executed range : Instance Scripted → Instance Scripted) :=
    executed_quiet range
  have stopped : stoppedAt? ended =
      some (.pool, ⟨⟨1, 0, 0⟩, .trap (.outOfBounds 2 "right" 2)⟩) := by decide +kernel
  refine ⟨built, pairInstance_made, Pool.onward_joins, quiet, stopped, ?_⟩
  cases result : ended with
  | ok _ i' =>
    rw [result] at stopped
    cases stopped
  | error e i' =>
    obtain ⟨memory, -, bindings, passId, lastReport⟩ :=
      failed_execution_leaves_no_trace built pairInstance_made Pool.onward_joins quiet result
    exact ⟨e, i', rfl, memory, bindings, passId, lastReport⟩

end Action

end GridKernel
