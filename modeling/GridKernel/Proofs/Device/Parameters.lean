import GridKernel.Dispatch.Transfer
import GridKernel.Proofs.Launch.Directions
import GridKernel.Proofs.Launch.Holding
import GridKernel.Proofs.Target.Layout
import GridKernel.Proofs.Target.Totality

/-!
# Parameters and arguments

Members of the state, parameters of the kernel function, the assignments at its start and the
arguments of a launch are written by different parts of the program and meet by position only. Here
each position has one meaning for all of them, and fields are moved under the same positions by
executions and by explicit transfers.
-/

namespace GridKernel

open List Ensures

/-- The argument for a pointer: memory of the device, or of a work-group. -/
def LaunchArg.pointer (space : MemorySpace) (bytes : Nat) : LaunchArg :=
  match space with
  | .global | .constant => .buffer bytes
  | .workGroup => .scratch bytes

/-- What stands for a parameter: its declaration, its name and its argument in a launch. -/
inductive Stands (d : Descriptor) (bound : List Bound) (passId : Int32) (m : Memory) :
    KernelParam → String → String → LaunchArg → Prop
  | scalar {i : Nat} {f : Field} {t : ScalarType} {v : Value} (declared : d.fields[i]? = some f)
      (element : f.element = .scalar t) (single : f.shape = .scalar)
      (found : bound[i]? = some (.scalar v)) (type : v.type = t) :
      Stands d bound passId m (.field i) (t.clName ++ " " ++ f.name) f.name (.scalar v)
  | array {i : Nat} {f : Field} {t : ScalarType} {id : BufferId} {b : Buffer}
      (declared : d.fields[i]? = some f) (element : f.element = .scalar t)
      (many : f.shape = .array) (found : bound[i]? = some (.array id))
      (held : m.buffers[id]? = some b) (type : b.type = t) :
      Stands d bound passId m (.field i)
        (f.space.clQualifier ++ " " ++ t.clName ++ " *" ++ f.name) f.name
        (.pointer f.space (b.size * b.type.size))
  | slots {i : Nat} {f : Field} {w : SlotWidth} {id : SlotsId} {s : SlotArray}
      (declared : d.fields[i]? = some f) (element : f.element = .atomic w)
      (mutable : f.space ≠ .constant) (found : bound[i]? = some (.slots id))
      (held : m.slots[id]? = some s) (width : s.width = w) :
      Stands d bound passId m (.field i)
        ("volatile " ++ f.space.clQualifier ++ " " ++ w.name ++ " *" ++ f.name) f.name
        (.pointer f.space (s.size * s.width.scalar.size))
  | length {i : Nat} {f : Field} {b : Bound} (declared : d.fields[i]? = some f)
      (many : f.shape = .array) (found : bound[i]? = some b) :
      Stands d bound passId m (.length i) ("int " ++ (f.name ++ "__length"))
        (f.name ++ "__length") (.scalar (.int (.ofNat (b.size m))))
  | passId : Stands d bound passId m .passId "int passid" "passid" (.scalar (.int passId))

variable {s : Schema} {f : Field} {i : Nat}

/-- No slots are constant. -/
theorem Schema.build_slots (built : s.build = .ok d) (declared : d.fields[i]? = some f)
    (atomic : f.element = .atomic w) : f.space ≠ .constant := by
  obtain ⟨decl, -, made⟩ := build_field built declared
  obtain ⟨element, -, made⟩ := Outcome.bind_eq_ok.mp made
  dsimp only at made
  obtain ⟨accepted, made⟩ := Outcome.ite_error_eq_ok.mp made
  obtain ⟨-, made⟩ := Outcome.ite_error_eq_ok.mp made
  obtain ⟨-, made⟩ := Outcome.ite_error_eq_ok.mp made
  obtain rfl := Except.ok.inj made
  dsimp only at atomic ⊢
  intro constant
  rw [atomic, constant] at accepted
  exact accepted rfl

namespace Field

variable {f : Field}

theorem isTransferred_of_array (many : f.isArray = true) :
    f.isTransferred = !decide (f.space = .workGroup) := by
  cases space : f.space <;> simp [isTransferred, many, scope, space]

theorem isTransferred_of_slots (atomic : f.element = .atomic w) :
    f.isTransferred = !decide (f.space = .workGroup) := by
  cases space : f.space <;> simp [isTransferred, isAtomic, atomic, scope, space]

end Field

namespace Descriptor

variable {d : Descriptor} {bound : List Bound} {m : Memory}

theorem fieldArg_array {id : BufferId} (many : f.isArray = true) (held : m.buffers[id]? = some b) :
    fieldArg f (.array id) m = .pointer f.space (b.size * b.type.size) := by
  have bytes : (Bound.array id).byteSize m = b.size * b.type.size := by
    simp [Bound.byteSize, Memory.buffer?, held, Buffer.byteSize]
  change (if f.isTransferred then LaunchArg.buffer _ else .scratch _) = _
  rw [bytes, Field.isTransferred_of_array many]
  cases f.space <;> rfl

theorem fieldArg_slots {w : SlotWidth} {id : SlotsId} {s : SlotArray}
    (atomic : f.element = .atomic w) (held : m.slots[id]? = some s) :
    fieldArg f (.slots id) m = .pointer f.space (s.size * s.width.scalar.size) := by
  have bytes : (Bound.slots id).byteSize m = s.size * s.width.scalar.size := by
    simp [Bound.byteSize, Memory.slots?, held, SlotArray.byteSize]
  change (if f.isTransferred then LaunchArg.buffer _ else .scratch _) = _
  rw [bytes, Field.isTransferred_of_slots atomic]
  cases f.space <;> rfl

/-- A field's declaration and its argument agree. -/
theorem stands_of_field (built : s.build = .ok d) (passId) (declared : d.fields[i]? = some f)
    (found : bound[i]? = some b) (fits : b.Fits m f) :
    Stands d bound passId m (.field i) (Target.fieldMember f).decl f.name (fieldArg f b m) := by
  cases fits with
  | @scalar v single type =>
    have shape : f.shape = .scalar := by
      cases shape : f.shape with
      | scalar => rfl
      | array => simp [Field.isArray, shape] at single
    have member : Target.fieldMember f = .scalar v.type f.name := by
      simp [Target.fieldMember, type, shape]
    rw [member]
    exact .scalar declared type shape found rfl
  | @array id buffer many type held =>
    have shape : f.shape = .array := of_decide_eq_true many
    have member : Target.fieldMember f = .array f.space buffer.type f.name := by
      simp [Target.fieldMember, type, shape]
    rw [member, fieldArg_array many held]
    exact .array declared type shape found held rfl
  | @slots id slots type _ _ held =>
    have mutable := Schema.build_slots built declared type
    have qualifier : f.scope.clQualifier = f.space.clQualifier := by
      cases space : f.space with
      | constant => exact absurd space mutable
      | global | workGroup =>
        simp [Field.scope, space, SlotScope.clQualifier, MemorySpace.clQualifier]
    have member : Target.fieldMember f = .slots f.scope slots.width f.name := by
      simp [Target.fieldMember, type]
    rw [member, Target.Member.decl, qualifier, fieldArg_slots type held]
    exact .slots declared type mutable found held rfl

/-- Every parameter has a meaning, and member and argument are those of it. -/
theorem stands_of_param (built : s.build = .ok d) (fit : Bound.AllFit d.fields bound m) (passId)
    (listed : param ∈ d.kernelParams) (found : Target.paramMember? d param = some member) :
    ∃ arg, d.launchArg bound passId m param = some arg ∧
      Stands d bound passId m param member.decl member.name arg := by
  cases param with
  | field i =>
    obtain ⟨f, declared, rfl⟩ := Option.map_eq_some_iff.mp found
    obtain ⟨b, bounded, fits⟩ := fit declared
    refine ⟨fieldArg f b m, by simp [launchArg, declared, bounded], ?_⟩
    rw [Target.name_fieldMember]
    exact stands_of_field built passId declared bounded fits
  | length i =>
    obtain ⟨f, declared, rfl⟩ := Option.map_eq_some_iff.mp found
    obtain ⟨b, bounded, -⟩ := fit declared
    obtain ⟨f', declared', many, -⟩ := length_mem_kernelParams.mp listed
    obtain rfl := Option.some.inj (declared.symm.trans declared')
    refine ⟨.scalar (.int (.ofNat (b.size m))), by simp [launchArg, bounded], ?_⟩
    exact .length declared (of_decide_eq_true many) bounded
  | passId =>
    cases found
    exact ⟨_, rfl, .passId⟩

/-! ## Transfers -/

theorem argIndex?_eq_some (built : s.build = .ok d) :
    d.argIndex? i = some arg ↔ d.kernelParams[arg]? = some (.field i) := by
  rw [argIndex?, idxOf?_eq_some_iff, getElem?_eq_some_iff]
  constructor
  · rintro ⟨inBounds, found, -⟩
    exact ⟨inBounds, found⟩
  · rintro ⟨inBounds, found⟩
    refine ⟨inBounds, found, fun j earlier same => ?_⟩
    have distinct := (Target.kernelParams_nodup built).getElem_inj_iff.mp (same.trans found.symm)
    omega

/-- The position of every field's argument is known. -/
theorem argIndex?_isSome (inBounds : i < d.fields.length) : ∃ arg, d.argIndex? i = some arg := by
  have listed : i ∈ d.kernelParams.filterMap KernelParam.field? := by
    rw [fields_of_kernelParams]
    exact mem_range.mpr inBounds
  obtain ⟨param, member, same⟩ := mem_filterMap.mp listed
  cases param with
  | field j =>
    cases same
    exact Option.isSome_iff_exists.mp (isSome_idxOf?.mpr member)
  | length j | passId => cases same

/-- What moves in an execution: every field in memory of the device, each at its position. -/
theorem mem_transfers (built : s.build = .ok d) :
    t ∈ d.transfers bound ↔
      ∃ i, d.fields[i]? = some t.field ∧ bound[i]? = some t.bound ∧
        t.field.isTransferred = true ∧ d.argIndex? i = some t.arg := by
  simp only [transfers, mem_filterMap, argIndex?_eq_some built]
  constructor
  · rintro ⟨⟨param, arg⟩, listed, made⟩
    have found := mk_mem_zipIdx_iff_getElem?.mp listed
    cases param with
    | length i | passId => cases made
    | field i =>
      obtain ⟨f, declared, made⟩ := Option.bind_eq_some_iff.mp made
      obtain ⟨b, bounded, made⟩ := Option.bind_eq_some_iff.mp made
      split at made
      · rename_i transferred
        cases made
        exact ⟨i, declared, bounded, transferred, found⟩
      · cases made
  · rintro ⟨i, declared, bounded, transferred, found⟩
    refine ⟨(.field i, t.arg), mk_mem_zipIdx_iff_getElem?.mpr found, ?_⟩
    simp [declared, bounded, transferred]

end Descriptor

variable {name : String}

theorem Kernel.field_named {k : Kernel} (h : k.field name = .ok (i, f)) : f.name = name := by
  have declared := Kernel.field_eq_ok h
  unfold Kernel.field at h
  split at h
  · cases h
  · rename_i n index
    split at h
    · cases h
      obtain ⟨inBounds, named, -⟩ := findIdx?_eq_some_iff_getElem.mp index
      rw [getElem?_eq_getElem inBounds] at declared
      cases declared
      exact eq_of_beq named
    · cases h

namespace Action

open Instance

variable {σ : Type}

/-- The same fields with the same bindings. -/
def SameBindings (i j : Instance σ) : Prop :=
  j.kernel.descriptor = i.kernel.descriptor ∧ j.kernel.bindings = i.kernel.bindings

theorem compile_bindings (i : Instance σ) :
    Ensures compile i (fun _ j => SameBindings i j) fun _ _ => True := by
  refine fromState ?_
  cases i.kernel.state with
  | executing b => exact thrown trivial
  | compiled b | idle b => exact ret ⟨rfl, rfl⟩
  | uncompiled =>
    refine andThen ((compileFor_leaves _ i).imp (fun _ _ h => h) fun _ _ _ => trivial) ?_
    intro b j unmoved
    have same : SameBindings i j := by rw [SameBindings, unmoved.kernel]; exact ⟨rfl, rfl⟩
    exact changed (ret same)

theorem explicitProgram_bindings (i : Instance σ) :
    Ensures explicitProgram i (fun _ j => SameBindings i j) fun _ _ => True := by
  refine fromState ?_
  split
  · exact ret ⟨rfl, rfl⟩
  · refine andThen (compile_bindings i) fun _ j same => ?_
    exact fromState (ret same)

/-- What an explicit transfer moves: a field by its name, its binding and its position. -/
theorem transferTarget_ensures (name : String) (i : Instance σ) :
    Ensures (transferTarget name) i
      (fun r _ => ∀ program arg b, r = some (program, arg, b) →
        ∃ n f, i.kernel.descriptor.fields[n]? = some f ∧ f.name = name ∧
          f.isTransferred = true ∧ i.kernel.bindings[n]? = some (some b) ∧
          i.kernel.descriptor.argIndex? n = some arg)
      fun _ _ => True := by
  refine fromState ?_
  refine andThen ((ofExcept_ensures _ _ i).imp (fun _ _ h => h) fun _ _ _ => trivial) ?_
  rintro ⟨n, f⟩ _ ⟨rfl, found⟩
  refine andThen (explicitProgram_bindings _) fun p j same => ?_
  cases p with
  | none => exact ret nofun
  | some program =>
    dsimp only
    split
    · exact ret nofun
    · rename_i transferred
      refine fromState ?_
      rw [same.1, same.2]
      split
      · exact thrown trivial
      · rename_i b bounded
        split
        · exact thrown trivial
        · rename_i arg position
          refine ret fun _ _ _ same => ?_
          cases same
          refine ⟨n, f, Kernel.field_eq_ok found, Kernel.field_named found,
            by simpa using transferred, Option.join_eq_some_iff.mp bounded, position⟩

/-- Putting a field does what an implicit execution does for that field alone. -/
theorem upload_eq {i j : Instance σ} {program : ProgramId} {t : Descriptor.Transfer}
    (target : transferTarget name i = .ok (some (program, t.arg, t.bound)) j) :
    upload name i = uploadAll program [t] j := by
  have uploads : (uploadAll program [t] : Action σ Unit) = (do
      let image := t.bound.image (← get).memory
      onDevice (·.upload program t.arg image)) := by
    simp only [uploadAll, bind_pure_unit]
  rw [uploads]
  exact bind_of_ok target

theorem download_eq {i j : Instance σ} {program : ProgramId} {t : Descriptor.Transfer}
    (target : transferTarget name i = .ok (some (program, t.arg, t.bound)) j) :
    download name i = (downloadAll program [t] >>= loadAll) j := by
  have downloads : (downloadAll program [t] >>= loadAll : Action σ Unit) = (do
      let bytes ← onDevice (·.download program t.arg)
      load t.bound bytes) := by
    simp only [downloadAll, pure_bind, bind_assoc, loadAll, bind_pure_unit]
  rw [downloads]
  exact bind_of_ok target

end Action

/-! ## One meaning for each position -/

/-- At each position the state, the parameters, the assignments and the arguments are about the
same thing, and no two positions have the same name. -/
structure Positions (d : Descriptor) (bound : List Bound) (passId : Int32) (m : Memory)
    (lines names : List String) : Prop where
  distinct : names.Nodup
  count : names.length = d.kernelParams.length ∧
    (Target.stateLines lines).length = d.kernelParams.length ∧
    (Target.signatureLines d.entry lines).length = d.kernelParams.length ∧
    (Target.prologueLines d.entry lines).length = d.kernelParams.length ∧
    (d.launchArgs bound passId m).length = d.kernelParams.length
  each : ∀ {n : Nat} {param : KernelParam}, d.kernelParams[n]? = some param →
    ∃ decl name arg, Stands d bound passId m param decl name arg ∧ names[n]? = some name ∧
      (Target.stateLines lines)[n]? = some ("   " ++ decl ++ ";") ∧
      (Target.signatureLines d.entry lines)[n]? =
        some ("   " ++ decl ++ if n + 1 = d.kernelParams.length then "" else ",") ∧
      (Target.prologueLines d.entry lines)[n]? =
        some ("   this->" ++ name ++ " = " ++ name ++ ";") ∧
      (d.launchArgs bound passId m)[n]? = some arg

/-- Fields move at the positions of their parameters, in executions and in explicit transfers. -/
structure MovesInPlace (d : Descriptor) (k : Kernel) (bound : List Bound) (m : Memory) : Prop where
  position : ∀ {i arg : Nat}, d.argIndex? i = some arg ↔ d.kernelParams[arg]? = some (.field i)
  total : ∀ {i : Nat}, i < d.fields.length → ∃ arg, d.argIndex? i = some arg
  transfers : ∀ {t : Descriptor.Transfer}, t ∈ d.transfers bound ↔
    ∃ i, d.fields[i]? = some t.field ∧ bound[i]? = some t.bound ∧
      t.field.isTransferred = true ∧ d.argIndex? i = some t.arg
  explicit : ∀ {σ : Type} {dispatcher : Dispatcher σ} {name : String} {program : ProgramId}
    {arg : Nat} {b : Bound} {j : Instance σ},
    Action.transferTarget name ⟨k, dispatcher, m⟩ = .ok (some (program, arg, b)) j →
      ∃ t ∈ d.transfers bound, t.field.name = name ∧ t.arg = arg ∧ t.bound = b ∧
        Action.upload name ⟨k, dispatcher, m⟩ = Action.uploadAll program [t] j ∧
        Action.download name ⟨k, dispatcher, m⟩ =
          (Action.downloadAll program [t] >>= Action.loadAll) j

namespace Descriptor

variable {s : Schema} {d : Descriptor} {k : Kernel} {m : Memory} {bound : List Bound}

theorem positions_of_program (built : s.build = .ok d) (fit : Bound.AllFit d.fields bound m)
    (complete : bound.length = d.fields.length) (passId) {p : Target.Program}
    (members : p.members = Target.members d) (entry : p.entry = d.entry) :
    Positions d bound passId m p.lines (p.members.map Target.Member.name) where
  distinct := members ▸ Target.names_nodup built
  count := by
    have arguments : (d.launchArgs bound passId m).length = d.kernelParams.length := by
      exact filterMap_length_eq_length.mpr
        fun _ member => launchArg_isSome complete passId m member
    refine ⟨?_, ?_, ?_, ?_, arguments⟩
    · rw [length_map, members, Target.length_members]
    · rw [Target.stateLines_eq, length_map, members, Target.length_members]
    · rw [← entry, Target.signatureLines_eq, Target.length_paramLines, members,
        Target.length_members]
    · rw [← entry, Target.prologueLines_eq, length_map, members, Target.length_members]
  each {n param} found := by
    obtain ⟨member, matched, listed⟩ := Target.member_at found
    obtain ⟨arg, given, stands⟩ :=
      stands_of_param built fit passId (mem_of_getElem? found) matched
    refine ⟨member.decl, member.name, arg, stands, ?_, ?_, ?_, ?_, ?_⟩
    · rw [getElem?_map, members, listed, Option.map_some]
    · rw [Target.stateLines_eq, getElem?_map, members, listed, Option.map_some]
    · rw [← entry, Target.signatureLines_eq, members, Target.getElem?_paramLines listed,
        Target.length_members]
    · rw [← entry, Target.prologueLines_eq, getElem?_map, members, listed, Option.map_some]
    · rw [launchArgs, getElem?_filterMap fun _ member => launchArg_isSome complete passId m member,
        found]
      exact given

theorem moves_in_place (built : s.build = .ok d) (made : k.Made d m)
    (complete : k.bound = .ok bound) : MovesInPlace d k bound m where
  position := argIndex?_eq_some built
  total := argIndex?_isSome
  transfers := mem_transfers built
  explicit {σ dispatcher name program arg b j} target := by
    obtain ⟨n, f, declared, named, transferred, bindings, position⟩ :=
      (Action.transferTarget_ensures name ⟨k, dispatcher, m⟩).of_ok target program arg b rfl
    rw [made.descriptor] at declared position
    obtain ⟨b', found, -⟩ := made.allFit complete declared
    have same := (made.binding_of_bound complete found).symm.trans bindings
    cases same
    refine ⟨⟨arg, f, b⟩, (mem_transfers built).mpr ⟨n, declared, found, transferred, position⟩,
      named, rfl, rfl, ?_, ?_⟩
    · exact Action.upload_eq target
    · exact Action.download_eq target

/-- For every checked kernel and all complete bindings: the members of the state, the parameters of
the kernel function, the assignments at its start and the arguments of a launch agree position by
position, and these are the positions under which fields are moved. -/
theorem parameters_agree (built : s.build = .ok d) (checked : Typing.check d = .ok ())
    (made : k.Made d m) (complete : k.bound = .ok bound) (passId : Int32) :
    ∃ lines names, d.compile = .ok ⟨d.entry, String.join (lines.map (· ++ "\n"))⟩ ∧
      d.InOrder d.kernelParams ∧ Positions d bound passId m lines names ∧
      MovesInPlace d k bound m := by
  obtain ⟨p, emits⟩ := Target.program_of_checked checked
  obtain ⟨members, entry⟩ := Target.program_parts emits
  refine ⟨p.lines, p.members.map Target.Member.name, Target.compile_of_program checked emits,
    Target.kernelParams_inOrder built, ?_, moves_in_place built made complete⟩
  exact positions_of_program built (made.allFit complete) (made.bound_length complete) passId
    members entry

/-- Fields of all kinds; the entry point calls a helper that reads two lengths. -/
def mixedMain : Method where
  name := "run"
  body := [.expr (.call "fill" [.globalId 0])]

def mixedHelper : Method where
  name := "fill"
  params := [⟨"i", .int⟩]
  body := [
    .branch (.binary .lt (.var "i") (.length "data"))
      [.expr (.atomic .add ⟨"counts", some (.int 0)⟩ [.length "counts"])] []]

def mixedSchema : Schema where
  name := "Mixed"
  fields := [
    { name := "flag", type := .scalar .boolean },
    { name := "table", type := .scalar .int, shape := .array, space := .constant },
    { name := "data", type := .scalar .short, shape := .array },
    { name := "counts", type := .atomic .int, shape := .array, space := .workGroup }]
  methods := [mixedMain, mixedHelper]

def mixedDescriptor : Descriptor where
  name := "Mixed"
  fields := [⟨"flag", .scalar .boolean, .scalar, .global, .readOnly⟩,
    ⟨"table", .scalar .int, .array, .constant, .readOnly⟩,
    ⟨"data", .scalar .short, .array, .global, .readOnly⟩,
    ⟨"counts", .atomic .int, .array, .workGroup, .readWrite⟩]
  main := mixedMain
  helpers := [mixedHelper]

def mixedMemory : Memory where
  buffers := #[⟨.int, #[10, 20]⟩, ⟨.short, #[1, 2, 3]⟩]
  slots := #[.zeroed .int .workGroup 4]

def mixedBound : List Bound := [.scalar (.boolean true), .array 0, .array 1, .slots 0]

def mixedKernel : Kernel where
  descriptor := mixedDescriptor
  bindings := mixedBound.map some

theorem mixed_parameters_agree :
    mixedSchema.build = .ok mixedDescriptor ∧ Typing.check mixedDescriptor = .ok () ∧
      mixedKernel.Made mixedDescriptor mixedMemory ∧ mixedKernel.bound = .ok mixedBound ∧
      mixedDescriptor.launchArgs mixedBound 7 mixedMemory =
        [.scalar (.boolean true), .buffer 8, .buffer 6, .scalar (.int 3), .scratch 16,
          .scalar (.int 4), .scalar (.int 7)] ∧
      mixedDescriptor.argIndex? 3 = some 4 ∧
      ∃ lines, mixedDescriptor.compile = .ok ⟨"run", String.join (lines.map (· ++ "\n"))⟩ ∧
        (Target.stateLines lines)[5]? = some "   int counts__length;" ∧
        (Target.signatureLines "run" lines)[5]? = some "   int counts__length," ∧
        (Target.prologueLines "run" lines)[5]? =
          some "   this->counts__length = counts__length;" := by
  have built : mixedSchema.build = .ok mixedDescriptor := by rfl
  have checked : Typing.check mixedDescriptor = .ok () := by decide
  have made : mixedKernel.Made mixedDescriptor mixedMemory := by
    let start : Memory := { mixedMemory with slots := #[] }
    let first := (Kernel.new mixedDescriptor start).1
    let second := first.setBinding 0 (.scalar (.boolean true))
    let third := second.setBinding 1 (.array 0)
    let fourth := third.setBinding 2 (.array 1)
    have table : start.buffers[0]? = some ⟨.int, #[10, 20]⟩ := rfl
    have data : start.buffers[1]? = some ⟨.short, #[1, 2, 3]⟩ := rfl
    have flagBound : first.bindScalar "flag" (.boolean true) = .ok second := rfl
    have tableBound : second.bind "table" 0 .int = .ok third := rfl
    have dataBound : third.bind "data" 1 .short = .ok fourth := rfl
    have countsBound : fourth.bindSlots "counts" 4 start = .ok (mixedKernel, mixedMemory) := rfl
    exact .bindSlots (.bind (.bind (.bindScalar (.new start) flagBound) table tableBound) data
      dataBound) countsBound
  have complete : mixedKernel.bound = .ok mixedBound := rfl
  obtain ⟨lines, names, compiled, -, positions, moves⟩ :=
    parameters_agree built checked made complete 7
  have sixth : mixedDescriptor.kernelParams[5]? = some (.length 3) := by decide
  obtain ⟨decl, name, arg, stands, -, state, signature, prologue, -⟩ := positions.each sixth
  refine ⟨built, checked, made, complete, by decide, moves.position.mpr (by decide), lines,
    compiled, ?_⟩
  cases stands with
  | length declared many found =>
    cases declared
    exact ⟨state, signature, prologue⟩

end Descriptor

end GridKernel
