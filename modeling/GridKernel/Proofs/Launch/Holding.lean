import GridKernel.Device.Arguments
import GridKernel.Proofs.Eval.Mirror
import GridKernel.Proofs.Launch.Pools

/-!
# What an instance holds

A launch reaches memory through its bindings only. Two launches of one kernel, whose arrays have the
same numbers and whose slots have counterparts in another memory, do the same there: the arguments
and images for the device are the same, images that come back are accepted alike, work-items on the
host end alike, and so does the restoring after a failure. Whatever the first launch does not hold
stays as it was.
-/

namespace GridKernel

open List

/-- What is held in two memories: buffers, which have the same numbers in both, and slots, each with
its counterpart. -/
structure Holding where
  owns : BufferId → Prop
  pairs : SlotsId → SlotsId → Prop
  oneToOne : ∀ {a b a' b' : SlotsId}, pairs a b → pairs a' b' → (a = a' ↔ b = b')

namespace Holding

/-- Bindings to the same or to counterparts. -/
inductive Mates (h : Holding) : Bound → Bound → Prop
  | scalar (v : Value) : Mates h (.scalar v) (.scalar v)
  | array {id : BufferId} (owned : h.owns id) : Mates h (.array id) (.array id)
  | slots {a b : SlotsId} (paired : h.pairs a b) : Mates h (.slots a) (.slots b)

/-- What is held is the same in both memories, and all else that the first one had at the start is
as it was. -/
structure Alike (h : Holding) (start m m' : Memory) : Prop where
  buffers : ∀ {id : BufferId}, h.owns id → m'.buffers[id]? = m.buffers[id]?
  slots : ∀ {a b : SlotsId}, h.pairs a b → m'.slots[b]? = m.slots[a]?
  valid : ∀ {a b : SlotsId}, h.pairs a b → a < m.slots.size ∧ b < m'.slots.size
  otherBuffers : ∀ {id : BufferId}, ¬h.owns id → m.buffers[id]? = start.buffers[id]?
  otherSlots : ∀ {a : SlotsId}, (∀ b, ¬h.pairs a b) → m.slots[a]? = start.slots[a]?
  size : start.slots.size ≤ m.slots.size

variable {h : Holding} {start m m' : Memory} {b b' : Bound}

namespace Alike

theorem modifyBuffer (alike : h.Alike start m m') {id : BufferId} (owned : h.owns id)
    (f : Buffer → Buffer) :
    h.Alike start (m.modifyBuffer id f) (m'.modifyBuffer id f) where
  buffers {id'} owned' := by
    simp only [Memory.modifyBuffer, Array.getElem?_modify, alike.buffers owned']
  slots paired := alike.slots paired
  valid paired := alike.valid paired
  otherBuffers {id'} other := by
    have elsewhere : id ≠ id' := fun same => other (same ▸ owned)
    simp only [Memory.modifyBuffer, Array.getElem?_modify, elsewhere, if_false]
    exact alike.otherBuffers other
  otherSlots other := alike.otherSlots other
  size := alike.size

theorem modifySlots (alike : h.Alike start m m') {a b : SlotsId} (paired : h.pairs a b)
    (f : SlotArray → SlotArray) :
    h.Alike start (m.modifySlots a f) (m'.modifySlots b f) where
  buffers owned := alike.buffers owned
  slots {a' b'} paired' := by
    simp only [Memory.modifySlots, Array.getElem?_modify, alike.slots paired',
      h.oneToOne paired paired']
  valid paired' := by simpa [Memory.modifySlots] using alike.valid paired'
  otherBuffers other := alike.otherBuffers other
  otherSlots {a'} other := by
    have elsewhere : a ≠ a' := fun same => other b (same ▸ paired)
    simp only [Memory.modifySlots, Array.getElem?_modify, elsewhere, if_false]
    exact alike.otherSlots other
  size := by simpa [Memory.modifySlots] using alike.size

/-- What is held with one array of slots more, the next one in each memory. -/
def added (alike : h.Alike start m m') : Holding where
  owns := h.owns
  pairs a b := h.pairs a b ∨ a = m.slots.size ∧ b = m'.slots.size
  oneToOne {a b a' b'} paired paired' := by
    rcases paired with old | ⟨rfl, rfl⟩
    · rcases paired' with old' | ⟨rfl, rfl⟩
      · exact h.oneToOne old old'
      · exact iff_of_false (Nat.ne_of_lt (alike.valid old).1) (Nat.ne_of_lt (alike.valid old).2)
    · rcases paired' with old' | ⟨rfl, rfl⟩
      · exact iff_of_false (Nat.ne_of_gt (alike.valid old').1) (Nat.ne_of_gt (alike.valid old').2)
      · exact iff_of_true rfl rfl

theorem addSlots (alike : h.Alike start m m') (s) :
    alike.added.Alike start (m.addSlots s).1 (m'.addSlots s).1 where
  buffers owned := alike.buffers owned
  slots {a b} paired := by
    rcases paired with old | ⟨rfl, rfl⟩
    · obtain ⟨inBounds, inBounds'⟩ := alike.valid old
      simpa [Memory.addSlots, Array.getElem?_push, Nat.ne_of_lt inBounds, Nat.ne_of_lt inBounds']
        using alike.slots old
    · simp [Memory.addSlots]
  valid {a b} paired := by
    simp only [Memory.addSlots, Array.size_push]
    rcases paired with old | ⟨rfl, rfl⟩
    · exact ⟨Nat.lt_succ_of_lt (alike.valid old).1, Nat.lt_succ_of_lt (alike.valid old).2⟩
    · exact ⟨Nat.lt_succ_self _, Nat.lt_succ_self _⟩
  otherBuffers other := alike.otherBuffers other
  otherSlots {a} other := by
    have older : a ≠ m.slots.size := fun new => other _ (.inr ⟨new, rfl⟩)
    simpa [Memory.addSlots, Array.getElem?_push, older] using
      alike.otherSlots fun b paired => other b (.inl paired)
  size := by
    simp only [Memory.addSlots, Array.size_push]
    exact Nat.le_succ_of_le alike.size

/-- What others do to the first memory does not matter, as long as they hold nothing of this. -/
theorem undisturbed {theirs : Holding} (mine : h.Alike m m m') {n n' : Memory}
    (alike : theirs.Alike m n n') (owns : ∀ {id}, h.owns id → ¬theirs.owns id)
    (pairs : ∀ {a b}, h.pairs a b → ∀ b', ¬theirs.pairs a b') : h.Alike n n m' where
  buffers owned := (mine.buffers owned).trans (alike.otherBuffers (owns owned)).symm
  slots paired := (mine.slots paired).trans (alike.otherSlots (pairs paired)).symm
  valid paired := ⟨Nat.lt_of_lt_of_le (mine.valid paired).1 alike.size, (mine.valid paired).2⟩
  otherBuffers _ := rfl
  otherSlots _ := rfl
  size := Nat.le_refl _

/-! ## Images -/

section

variable (alike : h.Alike start m m')
include alike

theorem size_eq (mates : h.Mates b b') : b'.size m' = b.size m := by
  cases mates with
  | scalar v => rfl
  | array owned => simp only [Bound.size, Memory.buffer?, alike.buffers owned]
  | slots paired => simp only [Bound.size, Memory.slots?, alike.slots paired]

theorem byteSize_eq (mates : h.Mates b b') :
    b'.byteSize m' = b.byteSize m := by
  cases mates with
  | scalar v => rfl
  | array owned => simp only [Bound.byteSize, Memory.buffer?, alike.buffers owned]
  | slots paired => simp only [Bound.byteSize, Memory.slots?, alike.slots paired]

theorem image_eq (mates : h.Mates b b') : b'.image m' = b.image m := by
  cases mates with
  | scalar v => rfl
  | array owned => simp only [Bound.image, Memory.buffer?, alike.buffers owned]
  | slots paired => simp only [Bound.image, Memory.slots?, alike.slots paired]

/-- An image is accepted by both or refused by both for the same reason. -/
theorem loadImage (mates : h.Mates b b') (bytes) :
    (∃ fault, m.loadImage b bytes = .error fault ∧ m'.loadImage b' bytes = .error fault) ∨
      ∃ n n', m.loadImage b bytes = .ok n ∧ m'.loadImage b' bytes = .ok n' ∧
        h.Alike start n n' := by
  cases mates with
  | scalar v => exact .inr ⟨m, m', rfl, rfl, alike⟩
  | @array id owned =>
    simp only [Memory.loadImage, Memory.buffer?, alike.buffers owned]
    cases m.buffers[id]? with
    | none => exact .inr ⟨m, m', rfl, rfl, alike⟩
    | some buffer =>
      dsimp only
      cases buffer.ofImage bytes with
      | error fault => exact .inl ⟨_, rfl, rfl⟩
      | ok loaded => exact .inr ⟨_, _, rfl, rfl, alike.modifyBuffer owned _⟩
  | @slots id id' paired =>
    simp only [Memory.loadImage, Memory.slots?, alike.slots paired]
    cases m.slots[id]? with
    | none => exact .inr ⟨m, m', rfl, rfl, alike⟩
    | some slots =>
      dsimp only
      cases slots.ofImage bytes with
      | error fault => exact .inl ⟨_, rfl, rfl⟩
      | ok loaded => exact .inr ⟨_, _, rfl, rfl, alike.modifySlots paired _⟩

/-! ## Snapshots -/

/-- What two snapshots saved of an array, or of slots. -/
theorem captured_arrays {bound bound' : List Bound} (mates : List.Forall₂ h.Mates bound bound')
    (d) :
    List.Forall₂ (fun p p' : BufferId × Array UInt64 => p' = p ∧ h.owns p.1)
      (Snapshot.capture d bound m).arrays (Snapshot.capture d bound' m').arrays := by
  have paired : List.Forall₂ (fun p p' : Field × Bound => p'.1 = p.1 ∧ h.Mates p.2 p'.2)
      (d.fields.zip bound) (d.fields.zip bound') := by
    generalize d.fields = fields
    induction mates generalizing fields with
    | nil => simp
    | cons first _ ih =>
      cases fields with
      | nil => exact .nil
      | cons f rest => exact .cons ⟨rfl, first⟩ (ih rest)
  refine rel_filterMap ?_ paired
  rintro ⟨f, b⟩ ⟨_, b'⟩ ⟨⟨⟩, mates⟩
  cases mates with
  | scalar v | slots _ => exact .none
  | @array id owned =>
    simp only [Memory.buffer?, alike.buffers owned]
    split
    · cases m.buffers[id]? with
      | none => exact .none
      | some b => exact .some ⟨rfl, owned⟩
    · exact .none

theorem captured_slots {bound bound' : List Bound} (mates : List.Forall₂ h.Mates bound bound') (d) :
    List.Forall₂ (fun p p' : SlotsId × Array Int64 => p'.2 = p.2 ∧ h.pairs p.1 p'.1)
      (Snapshot.capture d bound m).slots (Snapshot.capture d bound' m').slots := by
  refine rel_filterMap ?_ mates
  intro b b' mates
  cases mates with
  | scalar v | array _ => exact .none
  | @slots a b paired =>
    simp only [Memory.slots?, alike.slots paired]
    cases m.slots[a]? with
    | none => exact .none
    | some s => exact .some ⟨rfl, paired⟩

end

/-- Both runs are undone alike. -/
theorem restore (before : h.Alike start m m') (alike : h.Alike start n n')
    {bound bound' : List Bound} (mates : List.Forall₂ h.Mates bound bound') (d) :
    h.Alike start ((Snapshot.capture d bound m).restore n)
      ((Snapshot.capture d bound' m').restore n') := by
  unfold Snapshot.restore
  refine rel_foldl ?_ (rel_foldl ?_ alike (before.captured_arrays mates d))
    (before.captured_slots mates d)
  · rintro n n' alike ⟨a, cells⟩ ⟨b, _⟩ ⟨⟨⟩, paired⟩
    exact alike.modifySlots paired _
  · rintro n n' alike ⟨id, cells⟩ _ ⟨rfl, owned⟩
    exact alike.modifyBuffer owned _

end Alike

/-! ## Work-items -/

theorem Mates.mirrored (mates : h.Mates b b') :
    Eval.Mirrored (fun _ => True) (h.Alike start) b b' := by
  cases mates with
  | scalar v => exact .scalar v
  | array owned =>
    exact .array (fun alike => by rw [alike.buffers owned])
      (fun alike _ => by simp only [Memory.word?, alike.buffers owned])
      (fun alike _ => alike.modifyBuffer owned _)
  | slots paired =>
    exact .slots (fun alike => by rw [alike.slots paired])
      (fun alike _ => by simp only [Memory.word?, alike.slots paired])
      (fun alike _ => alike.modifySlots paired _)

end Holding

/-- The same launch through bindings to counterparts. -/
structure Launch.Mates (h : Holding) (l l' : Launch) : Prop where
  descriptor : l'.descriptor = l.descriptor
  bound : List.Forall₂ h.Mates l.bound l'.bound
  range : l'.range = l.range
  localSize : l'.localSize = l.localSize
  passId : l'.passId = l.passId

namespace Launch.Mates

variable {h : Holding}

theorem runItem (mates : Mates h l l') (alike : h.Alike start m m') (steps flat) :
    h.Alike start (l.runItem steps flat m).1 (l'.runItem steps flat m').1 ∧
      (l'.runItem steps flat m').2 = (l.runItem steps flat m).2 := by
  have item : (l'.context flat).item = (l.context flat).item := by
    simp only [context, mates.range, mates.localSize, mates.passId]
  have mirror : Eval.Mirror (l.context flat) (l'.context flat) (fun _ => True) (h.Alike start) :=
    ⟨mates.descriptor, item, mates.bound.imp fun _ _ mates => mates.mirrored⟩
  have ran : h.Alike start (Eval.run (l.context flat) steps m).1
        (Eval.run (l'.context flat) steps m').1 ∧
      (Eval.run (l'.context flat) steps m').2 = (Eval.run (l.context flat) steps m).2 :=
    mirror.run alike fun _ _ => trivial
  rw [runItem_eq, runItem_eq, item, ran.2]
  exact ⟨ran.1, rfl⟩

theorem runOrder (mates : Mates h l l') (steps order) (alike : h.Alike start m m') :
    h.Alike start (l.runOrder steps order m).1 (l'.runOrder steps order m').1 ∧
      (l'.runOrder steps order m').2 = (l.runOrder steps order m).2 := by
  induction order generalizing m m' with
  | nil => exact ⟨alike, rfl⟩
  | cons flat rest ih =>
    obtain ⟨after, fault⟩ := mates.runItem alike steps flat
    rw [Launch.runOrder, Launch.runOrder]
    rcases ended : l.runItem steps flat m with ⟨n, stop⟩
    rcases ended' : l'.runItem steps flat m' with ⟨n', stop'⟩
    rw [ended, ended'] at after fault
    obtain rfl : stop' = stop := fault
    cases stop' with
    | none => exact ih after
    | some fault => exact ⟨after, rfl⟩

end Launch.Mates

namespace Pool

/-- The turns that workers take depend on what their work-items see, and not on which storage the
fields are bound to. -/
def Impartial (p : Pool) : Prop :=
  ∀ {h : Holding} {l l' : Launch}, Launch.Mates h l l' → ∀ {start m m' : Memory},
    h.Alike start m m' → ∀ (steps : Nat) (cs : List Launch.Chunk),
    h.Alike start (p.run l steps cs m).1 (p.run l' steps cs m').1 ∧
      (p.run l' steps cs m').2 = (p.run l steps cs m).2

theorem inOrder_impartial : inOrder.Impartial := by
  intro h l l' mates start m m' alike steps cs
  dsimp only [inOrder]
  rw [Launch.runChunks_eq, Launch.runChunks_eq]
  exact mates.runOrder steps _ alike

end Pool

theorem Launch.Mates.onHost {l l' : Launch} {host : Host} (mates : Mates h l l')
    (impartial : host.pool.Impartial) (alike : h.Alike start m m') (device : Device) (c : Config) :
    h.Alike start (l.onHost device host c m).1 (l'.onHost device host c m').1 ∧
      (l'.onHost device host c m').2 = (l.onHost device host c m).2 := by
  cases device with
  | pool =>
    simp only [Launch.onHost, Launch.runPooled, mates.range]
    exact impartial mates alike _ _
  | sequential | accelerator =>
    simp only [Launch.onHost, runSequential_eq, mates.range]
    exact mates.runOrder _ _ alike

/-! ## Arguments -/

namespace Descriptor

variable {h : Holding} {bound : List Bound}

theorem getElem?_mates (mates : List.Forall₂ h.Mates bound bound') (i : Nat) :
    Option.Rel h.Mates bound[i]? bound'[i]? := by
  induction mates generalizing i with
  | nil => exact .none
  | cons first _ ih =>
    cases i with
    | zero => exact .some first
    | succ i => exact ih i

theorem launchArgs_eq (alike : h.Alike start m m') (mates : List.Forall₂ h.Mates bound bound')
    (d : Descriptor) (passId) : d.launchArgs bound' passId m' = d.launchArgs bound passId m := by
  have each : d.launchArg bound' passId m' = d.launchArg bound passId m := by
    funext param
    cases param with
    | passId => rfl
    | field i =>
      simp only [launchArg]
      generalize d.fields[i]? = field
      cases field with
      | none => rfl
      | some f =>
        have same := getElem?_mates mates i
        generalize bound[i]? = b at same ⊢
        generalize bound'[i]? = b' at same ⊢
        cases same with
        | none => rfl
        | some mates =>
          have bytes := alike.byteSize_eq mates
          cases mates with
          | scalar v => rfl
          | array _ | slots _ => simp [fieldArg, bytes]
    | length i =>
      simp only [launchArg]
      have same := getElem?_mates mates i
      generalize bound[i]? = b at same ⊢
      generalize bound'[i]? = b' at same ⊢
      cases same with
      | none => rfl
      | some mates => simp [alike.size_eq mates]
  rw [launchArgs, launchArgs, each]

/-- The same field at the same position, bound to counterparts. -/
structure Transfer.Mates (h : Holding) (t t' : Transfer) : Prop where
  arg : t'.arg = t.arg
  field : t'.field = t.field
  bound : h.Mates t.bound t'.bound

theorem transfers_mates (mates : List.Forall₂ h.Mates bound bound') (d : Descriptor) :
    List.Forall₂ (Transfer.Mates h) (d.transfers bound) (d.transfers bound') := by
  refine rel_filterMap (R := Eq) ?_ (forall₂_same.mpr fun _ _ => rfl)
  rintro ⟨param, arg⟩ _ rfl
  cases param with
  | length i | passId => exact .none
  | field i =>
    dsimp only
    generalize d.fields[i]? = field
    cases field with
    | none => exact .none
    | some f =>
      have same := getElem?_mates mates i
      generalize bound[i]? = b at same ⊢
      generalize bound'[i]? = b' at same ⊢
      cases same with
      | none => exact .none
      | some mates =>
        change Option.Rel _ (if f.isTransferred then _ else none)
          (if f.isTransferred then _ else none)
        split
        · exact .some ⟨rfl, rfl, mates⟩
        · exact .none

theorem mem_kernelParams {d : Descriptor} {param : KernelParam} (member : param ∈ d.kernelParams) :
    (∃ i < d.fields.length, param = .field i ∨ param = .length i) ∨ param = .passId := by
  rcases mem_append.mp member with member | last
  · obtain ⟨⟨f, i⟩, declared, member⟩ := mem_flatMap.mp member
    have inBounds : i < d.fields.length := by
      have := mem_zipIdx declared
      omega
    rcases mem_cons.mp member with rfl | member
    · exact .inl ⟨i, inBounds, .inl rfl⟩
    · split at member
      · exact .inl ⟨i, inBounds, .inr (mem_singleton.mp member)⟩
      · cases member
  · exact .inr (mem_singleton.mp last)

theorem getElem?_filterMap {α β : Type} {f : α → Option β} {l : List α}
    (all : ∀ a ∈ l, (f a).isSome) (k : Nat) : (l.filterMap f)[k]? = l[k]?.bind f := by
  induction l generalizing k with
  | nil => rfl
  | cons a rest ih =>
    obtain ⟨b, found⟩ := Option.isSome_iff_exists.mp (all a mem_cons_self)
    rw [filterMap_cons_some found]
    cases k with
    | zero => exact found.symm
    | succ k => exact ih (fun a member => all a (mem_cons_of_mem _ member)) k

/-- With every field bound, each parameter has its argument. -/
theorem launchArg_isSome {d : Descriptor} (complete : bound.length = d.fields.length) (passId m)
    {param : KernelParam} (member : param ∈ d.kernelParams) :
    (d.launchArg bound passId m param).isSome := by
  rcases mem_kernelParams member with ⟨i, inBounds, rfl | rfl⟩ | rfl
  · simp [launchArg, inBounds, complete]
  · simp [launchArg, inBounds, complete]
  · rfl

/-- Every argument in device memory belongs to a field that is transferred. -/
theorem transferred_of_buffer {d : Descriptor} (complete : bound.length = d.fields.length)
    {passId : Int32} {k bytes : Nat}
    (found : (d.launchArgs bound passId m)[k]? = some (.buffer bytes)) :
    ∃ t ∈ d.transfers bound, t.arg = k := by
  rw [launchArgs, getElem?_filterMap fun _ member => launchArg_isSome complete passId m member]
    at found
  obtain ⟨param, declared, found⟩ := Option.bind_eq_some_iff.mp found
  cases param with
  | passId => cases found
  | length i =>
    obtain ⟨b, -, found⟩ := Option.bind_eq_some_iff.mp found
    cases found
  | field i =>
    obtain ⟨f, field, found⟩ := Option.bind_eq_some_iff.mp found
    obtain ⟨b, bound, found⟩ := Option.bind_eq_some_iff.mp found
    have transferred : f.isTransferred = true := by
      have argument := Option.some.inj found
      unfold fieldArg at argument
      split at argument
      · cases argument
      · by_contra other
        rw [if_neg other] at argument
        cases argument
    refine ⟨⟨k, f, b⟩, mem_filterMap.mpr ⟨(.field i, k), ?_, ?_⟩, rfl⟩
    · exact mk_mem_zipIdx_iff_getElem?.mpr declared
    · simp [field, bound, transferred]

end Descriptor

end GridKernel
