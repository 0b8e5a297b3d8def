import GridKernel.Proofs.Memory.Snapshot

/-!
# Cells of memory

A buffer is made of elements and an array of slots of slots, and each of these cells holds a word.
Memory is its shape and the words of its cells: two memories of one shape with the same words are
the same memory.
-/

namespace GridKernel

open Option

/-- A place in memory that is read and written on its own. -/
inductive Cell where
  | element (buffer : BufferId) (index : Nat)
  | slot (slots : SlotsId) (index : Nat)
  deriving DecidableEq, Repr

/-- All of a buffer but its contents. -/
def Buffer.shape (b : Buffer) : ScalarType × Nat := (b.type, b.size)

@[simp] theorem Buffer.shape_store (b : Buffer) (i v) : (b.store i v).shape = b.shape := by
  simp [shape]

/-- Puts a value into one slot as it is; nothing happens out of range. -/
def SlotArray.put (s : SlotArray) (i : Nat) (v : Int64) : SlotArray :=
  { s with cells := s.cells.setIfInBounds i v }

@[simp] theorem SlotArray.shape_put (s : SlotArray) (i v) : (s.put i v).shape = s.shape := by
  simp [shape, size, put]

/-- Performing an operation puts the slot's next value, if it has one. -/
theorem SlotArray.perform?_eq (s : SlotArray) (i op operands) :
    s.perform? i op operands = (s.get? i).map fun current =>
      ((op.next current operands s.width).elim s (s.put i),
        (op.apply s.width current operands).2) := by
  unfold perform?
  cases found : s.get? i with
  | none => rfl
  | some current =>
    have unchanged : s.cells.setIfInBounds i current = s.cells := by
      obtain ⟨inBounds, rfl⟩ := Array.getElem?_eq_some_iff.mp found
      rw [Array.setIfInBounds_def, dif_pos inBounds]
      exact Array.set_getElem_self inBounds
    simp only [map_some, AtomicOp.apply]
    cases op.next current operands s.width with
    | none => simp only [unchanged]; rfl
    | some v => rfl

namespace Memory

/-- The word that a cell holds. -/
def word? (m : Memory) : Cell → Option UInt64
  | .element id i => m.buffers[id]?.bind (·.cells[i]?)
  | .slot id i => (m.slots[id]?.bind (·.cells[i]?)).map Int64.toUInt64

/-- The memories differ in contents at most. -/
structure SameShape (m m' : Memory) : Prop where
  buffers : ∀ id : BufferId, m'.buffers[id]?.map Buffer.shape = m.buffers[id]?.map Buffer.shape
  slots : ∀ id : SlotsId, m'.slots[id]?.map SlotArray.shape = m.slots[id]?.map SlotArray.shape

variable {id : SlotsId} {s : SlotArray}

namespace SameShape

variable {m m' : Memory}

theorem refl (m) : SameShape m m := ⟨fun _ => rfl, fun _ => rfl⟩

theorem symm (h : SameShape m m') : SameShape m' m :=
  ⟨fun id => (h.buffers id).symm, fun id => (h.slots id).symm⟩

theorem trans (first : SameShape m m') (second : SameShape m' m'') : SameShape m m'' :=
  ⟨fun id => (second.buffers id).trans (first.buffers id),
    fun id => (second.slots id).trans (first.slots id)⟩

theorem modifyBuffer (m id) (same : ∀ b, (f b).shape = b.shape) :
    SameShape m (m.modifyBuffer id f) where
  buffers id' := by
    simp only [Memory.modifyBuffer, Array.getElem?_modify]
    split
    · cases m.buffers[id']? <;> simp [same]
    · rfl
  slots _ := rfl

theorem modifySlots (m id) (same : ∀ s, (f s).shape = s.shape) :
    SameShape m (m.modifySlots id f) where
  buffers _ := rfl
  slots id' := by
    simp only [Memory.modifySlots, Array.getElem?_modify]
    split
    · cases m.slots[id']? <;> simp [same]
    · rfl

/-- A buffer has a counterpart of the same shape. -/
theorem buffer_of (h : SameShape m m') {id : BufferId} (held : m.buffers[id]? = some b) :
    ∃ b', m'.buffers[id]? = some b' ∧ b'.shape = b.shape := by
  have same := h.buffers id
  rw [held] at same
  exact map_eq_some_iff.mp same

theorem slots_of (h : SameShape m m') (held : m.slots[id]? = some s) :
    ∃ s', m'.slots[id]? = some s' ∧ s'.shape = s.shape := by
  have same := h.slots id
  rw [held] at same
  exact map_eq_some_iff.mp same

end SameShape

variable {m m' : Memory}

theorem buffer_eq_of_words {id : BufferId} (held : m.buffers[id]? = some b)
    (held' : m'.buffers[id]? = some b') (shape : b'.shape = b.shape)
    (words : ∀ x, m'.word? x = m.word? x) : b' = b := by
  have cells : b'.cells = b.cells := by
    refine Array.ext_getElem? fun i => ?_
    have word := words (.element id i)
    simpa [word?, held, held'] using word
  have type : b'.type = b.type := congrArg Prod.fst shape
  obtain ⟨t, c⟩ := b
  obtain ⟨t', c'⟩ := b'
  simp_all

/-- A word tells the value in its slot. -/
theorem slot_eq_of_word (held : m.slots[id]? = some s) (held' : m'.slots[id']? = some s')
    (word : m'.word? (.slot id' i) = m.word? (.slot id i)) : s'.get? i = s.get? i := by
  simp only [word?, held, held', bind_some] at word
  refine (map_inj_right fun v v' same => ?_).mp word
  rw [← v.toInt64_toUInt64, same, v'.toInt64_toUInt64]

theorem slots_eq_of_words (held : m.slots[id]? = some s) (held' : m'.slots[id]? = some s')
    (shape : s'.shape = s.shape) (words : ∀ x, m'.word? x = m.word? x) : s' = s := by
  have cells : s'.cells = s.cells :=
    Array.ext_getElem? fun i => slot_eq_of_word held held' (words (.slot id i))
  obtain ⟨w, scope, c⟩ := s
  obtain ⟨w', scope', c'⟩ := s'
  simp_all [SlotArray.shape]

/-- Memories of one shape with the same words are the same. -/
theorem eq_of_words (shape : SameShape m m') (words : ∀ x, m'.word? x = m.word? x) : m' = m := by
  have buffers : m'.buffers = m.buffers := by
    refine Array.ext_getElem? fun id => ?_
    cases held : m.buffers[id]? with
    | none => simpa [held] using shape.buffers id
    | some b =>
      obtain ⟨b', held', same⟩ := shape.buffer_of held
      rw [held', buffer_eq_of_words held held' same words]
  have slots : m'.slots = m.slots := by
    refine Array.ext_getElem? fun id => ?_
    cases held : m.slots[id]? with
    | none => simpa [held] using shape.slots id
    | some s =>
      obtain ⟨s', held', same⟩ := shape.slots_of held
      rw [held', slots_eq_of_words held held' same words]
  obtain ⟨bs, ss⟩ := m
  obtain ⟨bs', ss'⟩ := m'
  simp_all

/-! ## Stores -/

/-- What slots are replaced by may be computed from what they are. -/
theorem modifySlots_of_held (held : m.slots[id]? = some s) (f : SlotArray → SlotArray) :
    (m.modifySlots id fun _ => f s) = m.modifySlots id f := by
  unfold modifySlots
  congr 1
  refine Array.ext_getElem? fun id' => ?_
  simp only [Array.getElem?_modify]
  split
  · next same => rw [← same, held]; rfl
  · rfl

/-- Slots that are replaced by themselves stay as they are. -/
theorem modifySlots_self (held : m.slots[id]? = some s) : (m.modifySlots id fun _ => s) = m := by
  have same : m.slots.modify id (fun _ => s) = m.slots := by
    refine Array.ext_getElem? fun id' => ?_
    rw [Array.getElem?_modify]
    split
    · next equal => rw [← equal, held]; rfl
    · rfl
  rw [modifySlots, same]

variable {x : Cell}

theorem word?_store_of_ne {id : BufferId} (other : x ≠ .element id i) (v) :
    (m.modifyBuffer id (·.store i v)).word? x = m.word? x := by
  cases x with
  | slot => rfl
  | element id' i' =>
    by_cases same : id = id'
    · subst same
      have index : i ≠ i' := fun equal => other (equal ▸ rfl)
      cases held : m.buffers[id]? <;>
        simp [word?, modifyBuffer, Buffer.store, Array.getElem?_modify, held,
          Array.getElem?_setIfInBounds_ne index]
    · simp [word?, modifyBuffer, Array.getElem?_modify, same]

theorem word?_store_self (id i v) :
    (m.modifyBuffer id (·.store i v)).word? (.element id i) =
      m.buffers[id]?.bind fun b => b.cells[i]?.map fun _ => (v.cast b.type).toBits := by
  cases held : m.buffers[id]? with
  | none => simp [word?, modifyBuffer, Array.getElem?_modify, held]
  | some b =>
    simp only [word?, modifyBuffer, Array.getElem?_modify, held, Buffer.store, if_true,
      map_some, bind_some, Array.getElem?_setIfInBounds]
    by_cases inBounds : i < b.cells.size <;> simp [inBounds]

/-- One store into two memories keeps the words the same where they are the same. -/
theorem word?_store_congr (shape : SameShape m m') {id : BufferId} (same : m'.word? x = m.word? x) :
    (m'.modifyBuffer id (·.store i v)).word? x = (m.modifyBuffer id (·.store i v)).word? x := by
  by_cases here : x = .element id i
  · subst here
    rw [word?_store_self, word?_store_self]
    cases held : m.buffers[id]? with
    | none =>
      have absent : m'.buffers[id]? = none := by simpa [held] using shape.buffers id
      rw [absent]
    | some b =>
      obtain ⟨b', held', shapes⟩ := shape.buffer_of held
      have type : b'.type = b.type := congrArg Prod.fst shapes
      have cell : b'.cells[i]? = b.cells[i]? := by simpa [word?, held, held'] using same
      simp only [held', bind_some, type, cell]
  · rw [word?_store_of_ne here, word?_store_of_ne here, same]

theorem word?_put_of_ne (other : x ≠ .slot id i) (v) :
    (m.modifySlots id (·.put i v)).word? x = m.word? x := by
  cases x with
  | element => rfl
  | slot id' i' =>
    by_cases same : id = id'
    · subst same
      have index : i ≠ i' := fun equal => other (equal ▸ rfl)
      cases held : m.slots[id]? <;>
        simp [word?, modifySlots, SlotArray.put, Array.getElem?_modify, held,
          Array.getElem?_setIfInBounds_ne index]
    · simp [word?, modifySlots, Array.getElem?_modify, same]

theorem word?_put_self (id i v) :
    (m.modifySlots id (·.put i v)).word? (.slot id i) =
      (m.word? (.slot id i)).map fun _ => v.toUInt64 := by
  cases held : m.slots[id]? with
  | none => simp [word?, modifySlots, Array.getElem?_modify, held]
  | some s =>
    simp only [word?, modifySlots, Array.getElem?_modify, held, SlotArray.put, if_true,
      map_some, bind_some, Array.getElem?_setIfInBounds]
    by_cases inBounds : i < s.cells.size <;> simp [inBounds]

theorem word?_put_congr (same : m'.word? x = m.word? x) :
    (m'.modifySlots id (·.put i v)).word? x = (m.modifySlots id (·.put i v)).word? x := by
  by_cases here : x = .slot id i
  · subst here
    rw [word?_put_self, word?_put_self, same]
  · rw [word?_put_of_ne here, word?_put_of_ne here, same]

end Memory

end GridKernel
