import GridKernel.Device.Scripted
import Mathlib.Logic.Function.Basic

/-!
# Programs as memories

What an accelerator is expected to be: every program that it built is a memory from the positions of
the arguments to bytes. An upload writes it, a download reads it, and a launch is a function of the
arguments, the range and that memory. Programs do not reach each other's memory, and what a text is
built into depends on the text alone.

The scripted accelerator is of this kind, whatever its script.
-/

namespace GridKernel

/-- The memory of a program: the bytes at the position of each argument, if there are any. -/
abbrev DeviceMemory := Nat → Option (List UInt8)

/-- Memories that hold the same at some positions. -/
def DeviceMemory.Agree (shared : Nat → Prop) (mem mem' : DeviceMemory) : Prop :=
  ∀ k, shared k → mem' k = mem k

/-- The programs in the state of an accelerator. -/
structure DeviceView (σ : Type) where
  /-- What a text is built into. -/
  Code : Type
  /-- The states in which the accelerator works as expected. -/
  Sound : σ → Prop
  program? : σ → ProgramId → Option (Code × DeviceMemory)

/-- The operation is a function of the program's code and memory, and leaves the other programs
alone. -/
def DeviceView.Acts {σ α : Type} (view : DeviceView σ) (op : ProgramId → DeviceAction σ α)
    (act : view.Code → DeviceMemory → Except String α × DeviceMemory) : Prop :=
  ∀ ⦃s id code mem⦄, view.Sound s → view.program? s id = some (code, mem) →
    (op id s).1 = (act code mem).1 ∧ view.Sound (op id s).2 ∧
      view.program? (op id s).2 =
        Function.update (view.program? s) id (some (code, (act code mem).2))

/-- An accelerator whose programs are memories. -/
structure ProgramModel {σ : Type} (acc : Accelerator σ) extends DeviceView σ where
  build : String → Except String Code
  upload : Code → Nat → List UInt8 → Except String Unit
  download : Code → Nat → Option (List UInt8) → Except String (List UInt8)
  launch : Code → List LaunchArg → Range → Dim3 → DeviceMemory → Except String Unit × DeviceMemory
  /-- A text that is refused changes no program. -/
  refuses : ∀ {s source reason}, Sound s → build source.text = .error reason →
    (acc.build source s).1 = .error reason ∧ Sound (acc.build source s).2 ∧
      program? (acc.build source s).2 = program? s
  /-- A text that is accepted becomes a program of its own with an empty memory. -/
  builds : ∀ {s source code}, Sound s → build source.text = .ok code →
    ∃ id, (acc.build source s).1 = .ok id ∧ Sound (acc.build source s).2 ∧
      program? s id = none ∧ program? (acc.build source s).2 =
        Function.update (program? s) id (some (code, fun _ => none))
  uploads : ∀ arg bytes, toDeviceView.Acts (acc.upload · arg bytes) fun code mem =>
    match upload code arg bytes with
    | .ok () => (.ok (), Function.update mem arg (some bytes))
    | .error reason => (.error reason, mem)
  downloads : ∀ arg, toDeviceView.Acts (acc.download · arg) fun code mem =>
    (download code arg (mem arg), mem)
  launches : ∀ args range size, toDeviceView.Acts (acc.launch · args range size) fun code mem =>
    launch code args range size mem
  /-- A launch reads and writes only the memory of its arguments. -/
  confined : ∀ code args range size {shared mem mem'},
    (∀ k bytes, args[k]? = some (.buffer bytes) → shared k) →
    DeviceMemory.Agree shared mem mem' →
    (launch code args range size mem').1 = (launch code args range size mem).1 ∧
      DeviceMemory.Agree shared (launch code args range size mem).2
        (launch code args range size mem').2

/-! ## The scripted accelerator -/

namespace Scripted

variable {s : Scripted}

/-- What is at a position of a program's memory. -/
def image? (s : Scripted) (id : ProgramId) (arg : Nat) : Option (List UInt8) :=
  s.images.lookup (id, arg)

theorem lookup_filter_ne (other : key' ≠ key) (l : List ((ProgramId × Nat) × List UInt8)) :
    (l.filter (·.1 ≠ key)).lookup key' = l.lookup key' := by
  induction l with
  | nil => rfl
  | cons p rest ih =>
    obtain ⟨k, v⟩ := p
    by_cases same : k = key
    · subst same
      have differs : (key' == k) = false := beq_false_of_ne other
      simp only [List.lookup_cons, differs]
      simpa using ih
    · simp only [ne_eq, same, not_false_eq_true, decide_true, List.filter_cons_of_pos,
        List.lookup_cons]
      cases key' == k with
      | true => rfl
      | false => exact ih

theorem image?_put (s : Scripted) (id arg bytes) :
    (s.put id arg bytes).image? =
      Function.update s.image? id (Function.update (s.image? id) arg (some bytes)) := by
  funext id' arg'
  unfold image? put
  by_cases same : (id', arg') = (id, arg)
  · obtain ⟨rfl, rfl⟩ := Prod.mk.inj same
    simp
  · have differs : ((id', arg') == (id, arg)) = false := beq_false_of_ne same
    rw [List.lookup_cons, differs]
    dsimp only
    rw [lookup_filter_ne same]
    by_cases program : id' = id
    · subst program
      have position : arg' ≠ arg := fun equal => same (equal ▸ rfl)
      simp [position]
    · simp [program]

/-- Only programs that were built have memory. -/
def Fresh (s : Scripted) : Prop := ∀ id arg, s.next ≤ id → s.image? id arg = none

/-- The programs of an accelerator with this script; if builds fail there are none. -/
def view (script : Script) : DeviceView Scripted where
  Code := Unit
  Sound s := s.script = script ∧ s.Fresh
  program? s id :=
    if script.failBuild = false ∧ id < s.next then some ((), s.image? id) else none

variable {script : Script}

theorem built_of_program? {id : ProgramId} (held : (view script).program? s id = some (code, mem)) :
    id < s.next ∧ mem = s.image? id := by
  obtain ⟨⟨-, built⟩, same⟩ := Option.ite_none_right_eq_some.mp held
  cases same
  exact ⟨built, rfl⟩

/-- An operation that changes the memory of one program at most. -/
theorem view_acts {α : Type} {op : ProgramId → DeviceAction Scripted α}
    {act : Unit → DeviceMemory → Except String α × DeviceMemory}
    (acts : ∀ s id, s.script = script →
      (op id s).1 = (act () (s.image? id)).1 ∧ (op id s).2.script = s.script ∧
        (op id s).2.next = s.next ∧ (op id s).2.image? =
          Function.update s.image? id (act () (s.image? id)).2) : (view script).Acts op act := by
  rintro s id ⟨⟩ mem ⟨scripted, fresh⟩ held
  obtain ⟨built, rfl⟩ := built_of_program? held
  obtain ⟨answer, script', next, images⟩ := acts s id scripted
  refine ⟨answer, ⟨script'.trans scripted, fun id' arg unbuilt => ?_⟩, funext fun id' => ?_⟩
  · rw [next] at unbuilt
    have other : id' ≠ id := Nat.ne_of_gt (Nat.lt_of_lt_of_le built unbuilt)
    rw [images, Function.update_of_ne other]
    exact fresh id' arg unbuilt
  · obtain ⟨⟨works, -⟩, -⟩ := Option.ite_none_right_eq_some.mp held
    simp only [view, works, next, images, true_and]
    by_cases same : id' = id
    · subst same
      simp [built]
    · simp [same]

/-- What a launch leaves at the position of an argument. -/
def launchedAt (fill : Option UInt8) (image : Option (List UInt8)) :
    Option LaunchArg → Option (List UInt8)
  | some (.buffer bytes) => some (launched fill bytes image)
  | _ => image

theorem launchArg_eq (id : ProgramId) (arg : LaunchArg) (k : Nat) (s : Scripted) :
    let s' := s.launchArg id (arg, k)
    s'.script = s.script ∧ s'.next = s.next ∧ ∀ id' k', s'.image? id' k' =
      if id' = id ∧ k' = k then launchedAt s.script.fill (s.image? id' k') (some arg)
      else s.image? id' k' := by
  cases arg with
  | scratch bytes | scalar value => exact ⟨rfl, rfl, fun id' k' => by simp [launchArg, launchedAt]⟩
  | buffer bytes =>
    refine ⟨rfl, rfl, fun id' k' => ?_⟩
    rw [launchArg, image?_put]
    by_cases program : id' = id
    · subst program
      by_cases position : k' = k
      · subst position
        simp [launchedAt, image?]
      · simp [position]
    · simp [program]

/-- A launch goes through the arguments one after the other. -/
theorem foldl_launchArg (id : ProgramId) (args : List LaunchArg) (first : Nat) (s : Scripted) :
    let s' := (args.zipIdx first).foldl (launchArg id) s
    s'.script = s.script ∧ s'.next = s.next ∧ ∀ id' k, s'.image? id' k =
      if id' = id ∧ first ≤ k then
        launchedAt s.script.fill (s.image? id' k) args[k - first]?
      else s.image? id' k := by
  induction args generalizing first s with
  | nil => exact ⟨rfl, rfl, fun id' k => by simp [launchedAt]⟩
  | cons arg rest ih =>
    obtain ⟨script, next, here⟩ := launchArg_eq id arg first s
    obtain ⟨script', next', later⟩ := ih (first + 1) (s.launchArg id (arg, first))
    refine ⟨script'.trans script, next'.trans next, fun id' k => ?_⟩
    rw [List.zipIdx_cons, List.foldl_cons, later, here, script]
    by_cases program : id' = id
    · rcases Nat.lt_trichotomy k first with before | rfl | after
      · have early : ¬first ≤ k ∧ ¬first + 1 ≤ k ∧ k ≠ first := by omega
        simp [early]
      · have last : ¬k + 1 ≤ k := by omega
        simp [program, last]
      · have late : first ≤ k ∧ first + 1 ≤ k ∧ k ≠ first := by omega
        obtain ⟨n, rfl⟩ : ∃ n, k = first + 1 + n := ⟨k - (first + 1), by omega⟩
        have position : first + 1 + n - first = n + 1 := by omega
        simp [program, late, position]
    · simp [program]

theorem launch_eq (works : s.script.failLaunch = false) (id : ProgramId) (args : List LaunchArg)
    (range : Range) (size : Dim3) :
    let ended := launch id args range size s
    ended.1 = .ok () ∧ ended.2.script = s.script ∧ ended.2.next = s.next ∧ ended.2.image? =
      Function.update s.image? id fun k => launchedAt s.script.fill (s.image? id k) args[k]? := by
  have ended : launch id args range size s =
      (.ok (), args.zipIdx.foldl (launchArg id) (s.note (.launch id args range size))) :=
    if_neg (ne_true_of_eq_false works)
  obtain ⟨script, next, images⟩ := foldl_launchArg id args 0 (s.note (.launch id args range size))
  rw [ended]
  refine ⟨rfl, script, next, funext fun id' => funext fun k => ?_⟩
  rw [images]
  by_cases program : id' = id
  · subst program
    simp [note, image?]
  · simp [program, note, image?]

/-- What the script says about a text. -/
def buildOutcome (script : Script) : Except String Unit :=
  if script.failBuild then .error "build rejected" else .ok ()

def uploadOutcome (script : Script) (arg : Nat) : Except String Unit :=
  if script.failUpload.contains arg then .error s!"write of argument {arg} failed" else .ok ()

def downloadOutcome (script : Script) (arg : Nat) (image : Option (List UInt8)) :
    Except String (List UInt8) :=
  if script.failDownload.contains arg then .error s!"read of argument {arg} timed out"
  else match image with
    | none => .error s!"argument {arg} was never uploaded"
    | some bytes => .ok (if script.shortDownload.contains arg then bytes.dropLast else bytes)

def launchOutcome (script : Script) (args : List LaunchArg) (mem : DeviceMemory) :
    Except String Unit × DeviceMemory :=
  if script.failLaunch then (.error "device lost", mem)
  else (.ok (), fun k => launchedAt script.fill (mem k) args[k]?)

theorem refuses_of_script (sound : (view script).Sound s)
    (refused : buildOutcome script = .error reason) :
    (accelerator.build source s).1 = .error reason ∧
      (view script).Sound (accelerator.build source s).2 ∧
      (view script).program? (accelerator.build source s).2 = (view script).program? s := by
  obtain ⟨rfl, fresh⟩ := sound
  cases fails : s.script.failBuild with
  | false => simp [buildOutcome, fails] at refused
  | true =>
    obtain rfl : "build rejected" = reason := by simpa [buildOutcome, fails] using refused
    refine ⟨if_pos fails,
      ⟨rfl, fun id arg unbuilt => fresh id arg (Nat.le_of_succ_le unbuilt)⟩, ?_⟩
    funext id
    simp [view, fails]

theorem builds_of_script (sound : (view script).Sound s)
    (accepted : buildOutcome script = .ok code) :
    ∃ id, (accelerator.build source s).1 = .ok id ∧
      (view script).Sound (accelerator.build source s).2 ∧ (view script).program? s id = none ∧
      (view script).program? (accelerator.build source s).2 =
        Function.update ((view script).program? s) id (some (code, fun _ => none)) := by
  obtain ⟨rfl, fresh⟩ := sound
  cases fails : s.script.failBuild with
  | true => simp [buildOutcome, fails] at accepted
  | false =>
    refine ⟨s.next, if_neg (ne_true_of_eq_false fails),
      ⟨rfl, fun id arg unbuilt => fresh id arg (Nat.le_of_succ_le unbuilt)⟩, by simp [view], ?_⟩
    funext id
    change (if s.script.failBuild = false ∧ id < s.next + 1 then some ((), s.image? id) else none) =
      Function.update (fun id => if s.script.failBuild = false ∧ id < s.next then
        some ((), s.image? id) else none) s.next (some (code, fun _ => none)) id
    by_cases new : id = s.next
    · subst new
      have empty : s.image? s.next = fun _ => none :=
        funext fun arg => fresh s.next arg (Nat.le_refl _)
      simp [fails, empty]
    · have earlier : id < s.next + 1 ↔ id < s.next := by
        rw [Nat.lt_succ_iff_lt_or_eq]
        simp [new]
      simp [fails, new, earlier]

/-- Whatever the script says, the programs are memories. -/
def programModel (script : Script) : ProgramModel accelerator where
  toDeviceView := view script
  build _ := buildOutcome script
  upload _ arg _ := uploadOutcome script arg
  download _ arg image := downloadOutcome script arg image
  launch _ args _ _ mem := launchOutcome script args mem
  refuses := refuses_of_script
  builds := builds_of_script
  uploads arg bytes := view_acts fun s id scripted => by
    subst scripted
    unfold uploadOutcome
    cases fails : s.script.failUpload.contains arg with
    | true =>
      have ended : accelerator.upload id arg bytes s = (.error _, s.note (.upload id arg bytes)) :=
        if_pos fails
      rw [ended]
      exact ⟨rfl, rfl, rfl, (Function.update_eq_self id s.image?).symm⟩
    | false =>
      have ended : accelerator.upload id arg bytes s =
          (.ok (), (s.note (.upload id arg bytes)).put id arg bytes) :=
        if_neg (ne_true_of_eq_false fails)
      rw [ended]
      exact ⟨rfl, rfl, rfl, image?_put _ id arg bytes⟩
  downloads arg := view_acts fun s id scripted => by
    subst scripted
    exact ⟨rfl, rfl, rfl, (Function.update_eq_self id s.image?).symm⟩
  launches args range size := view_acts fun s id scripted => by
    subst scripted
    unfold launchOutcome
    cases fails : s.script.failLaunch with
    | true =>
      have ended : accelerator.launch id args range size s =
          (.error "device lost", s.note (.launch id args range size)) := if_pos fails
      rw [ended]
      exact ⟨rfl, rfl, rfl, (Function.update_eq_self id s.image?).symm⟩
    | false => exact launch_eq fails id args range size
  confined _ args _ _ {shared mem mem'} _ agree := by
    unfold launchOutcome
    cases script.failLaunch with
    | true => exact ⟨rfl, agree⟩
    | false =>
      exact ⟨rfl, fun k known => congrArg (launchedAt script.fill · args[k]?) (agree k known)⟩

end Scripted

end GridKernel
