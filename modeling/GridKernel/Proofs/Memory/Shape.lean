import GridKernel.Memory.Basic

/-!
# What stays the same in memory

Contents change, but a buffer keeps its type and size, and slots keep their width, their number
and the range of their width. `Memory.Keeps` says so of two memories, and a binding that fits its
field in the first one fits it in the second.
-/

namespace GridKernel

@[simp] theorem SlotWidth.wrap_wrap (w : SlotWidth) (v) : w.wrap (w.wrap v) = w.wrap v := by
  cases w <;> simp [SlotWidth.wrap]

namespace SlotArray

/-- Every slot holds a value of the slots' width. -/
def Canonical (s : SlotArray) : Prop := ∀ v ∈ s.cells, s.width.wrap v = v

theorem zeroed_canonical (w scope size) : (zeroed w scope size).Canonical := by
  intro v member
  obtain ⟨-, rfl⟩ := Array.mem_replicate.mp member
  cases w <;> rfl

end SlotArray

/-- An operation stores values of the slot's width only. -/
theorem AtomicOp.next_wrapped {op : AtomicOp} {w : SlotWidth} {current v : Int64}
    {operands : List Int64} (h : op.next current operands w = some v) : w.wrap v = v := by
  cases op <;> simp only [AtomicOp.next] at h
  case get => cases h
  case cmpXchg | min | max =>
    split at h
    · cases h
      exact w.wrap_wrap _
    · cases h
  all_goals
    cases h
    exact w.wrap_wrap _

theorem AtomicOp.apply_wrapped (op : AtomicOp) (operands) (h : w.wrap current = current) :
    w.wrap (op.apply w current operands).1 = (op.apply w current operands).1 := by
  unfold AtomicOp.apply
  cases stored : op.next current operands w with
  | none => exact h
  | some next => exact AtomicOp.next_wrapped stored

/-- A read stores what was there. -/
theorem AtomicOp.apply_read {op : AtomicOp} (h : op.writes = false) (w current operands) :
    (op.apply w current operands).1 = current := by
  cases op <;> first | rfl | cases h

namespace SlotArray

variable {s : SlotArray} {i : Nat}

section

variable (h : s.perform? i op operands = some (after, result))
include h

/-- What an operation on a slot leaves behind. -/
theorem perform?_eq_some :
    ∃ current, s.cells[i]? = some current ∧
      after = { s with cells := s.cells.setIfInBounds i (op.apply s.width current operands).1 } ∧
      result = (op.apply s.width current operands).2 := by
  obtain ⟨current, found, performed⟩ := Option.map_eq_some_iff.mp h
  cases performed
  exact ⟨current, found, rfl, rfl⟩

theorem perform?_width :
    after.width = s.width := by
  obtain ⟨_, _, rfl, _⟩ := perform?_eq_some h
  rfl

theorem perform?_size :
    after.size = s.size := by
  obtain ⟨_, _, rfl, _⟩ := perform?_eq_some h
  simp [size]

theorem perform?_canonical (canonical : s.Canonical) : after.Canonical := by
  obtain ⟨current, found, rfl, _⟩ := perform?_eq_some h
  have held : s.width.wrap current = current := canonical current (Array.mem_of_getElem? found)
  intro v member
  rcases Array.mem_or_eq_of_mem_setIfInBounds member with old | rfl
  · exact canonical v old
  · exact op.apply_wrapped operands held

end

theorem perform?_read (reads : op.writes = false)
    (h : s.perform? i op operands = some (after, result)) : after = s := by
  obtain ⟨current, found, rfl, _⟩ := perform?_eq_some h
  obtain ⟨inBounds, rfl⟩ := Array.getElem?_eq_some_iff.mp found
  simp [AtomicOp.apply_read reads, Array.setIfInBounds, inBounds]

end SlotArray

namespace Buffer

@[simp] theorem type_store (b : Buffer) (i v) : (b.store i v).type = b.type := rfl

@[simp] theorem size_store (b : Buffer) (i v) : (b.store i v).size = b.size := by
  simp [store, size]

end Buffer

namespace Memory

/-- Everything in `m` is still there in `m'`, with the shape it had. -/
structure Keeps (m m' : Memory) : Prop where
  buffer : ∀ {id : BufferId} {b : Buffer}, m.buffers[id]? = some b →
    ∃ b' : Buffer, m'.buffers[id]? = some b' ∧ b'.type = b.type ∧ b'.size = b.size
  slots : ∀ {id : SlotsId} {s : SlotArray}, m.slots[id]? = some s →
    ∃ s' : SlotArray, m'.slots[id]? = some s' ∧ s'.width = s.width ∧ s'.size = s.size ∧
      (s.Canonical → s'.Canonical)

namespace Keeps

theorem refl (m) : Keeps m m where
  buffer found := ⟨_, found, rfl, rfl⟩
  slots found := ⟨_, found, rfl, rfl, fun h => h⟩

theorem trans (first : Keeps m₁ m₂) (second : Keeps m₂ m₃) :
    Keeps m₁ m₃ where
  buffer found := by
    obtain ⟨b', found', type', size'⟩ := first.buffer found
    obtain ⟨b'', found'', type'', size''⟩ := second.buffer found'
    exact ⟨b'', found'', type''.trans type', size''.trans size'⟩
  slots found := by
    obtain ⟨s', found', width', size', canonical'⟩ := first.slots found
    obtain ⟨s'', found'', width'', size'', canonical''⟩ := second.slots found'
    exact ⟨s'', found'', width''.trans width', size''.trans size', canonical'' ∘ canonical'⟩

end Keeps

/-- A change of one buffer that keeps its shape. -/
theorem modifyBuffer_keeps {m : Memory} {id : BufferId} {f : Buffer → Buffer}
    (type : ∀ b, (f b).type = b.type) (size : ∀ b, (f b).size = b.size) :
    m.Keeps (m.modifyBuffer id f) where
  buffer {id' b} found := by
    by_cases same : id = id'
    · exact ⟨f b, by simp [modifyBuffer, Array.getElem?_modify, same, found], type b, size b⟩
    · exact ⟨b, by simp [modifyBuffer, Array.getElem?_modify, same, found], rfl, rfl⟩
  slots found := ⟨_, found, rfl, rfl, fun h => h⟩

theorem store_keeps (m : Memory) (id i v) : m.Keeps (m.modifyBuffer id (·.store i v)) :=
  modifyBuffer_keeps (fun b => b.type_store i v) fun b => b.size_store i v

/-- Putting other slots of the same shape in the place of slots. -/
theorem replaceSlots_keeps {m : Memory} {id : SlotsId} {s after : SlotArray}
    (held : m.slots[id]? = some s) (width : after.width = s.width) (size : after.size = s.size)
    (canonical : s.Canonical → after.Canonical) : m.Keeps (m.modifySlots id fun _ => after) where
  buffer found := ⟨_, found, rfl, rfl⟩
  slots {id' s'} found := by
    by_cases same : id = id'
    · subst same
      obtain rfl : s = s' := Option.some.inj (held.symm.trans found)
      exact ⟨after, by simp [modifySlots, Array.getElem?_modify, found], width, size, canonical⟩
    · exact ⟨s', by simp [modifySlots, Array.getElem?_modify, same, found], rfl, rfl,
        fun h => h⟩

theorem perform_keeps {m : Memory} {id : SlotsId} {s after : SlotArray} {i : Nat} {op : AtomicOp}
    {operands : List Int64} {result : Int64} (held : m.slots[id]? = some s)
    (performed : s.perform? i op operands = some (after, result)) :
    m.Keeps (m.modifySlots id fun _ => after) :=
  replaceSlots_keeps held (SlotArray.perform?_width performed) (SlotArray.perform?_size performed)
    (SlotArray.perform?_canonical performed)

theorem addSlots_keeps (m : Memory) (s) : m.Keeps (m.addSlots s).1 where
  buffer found := ⟨_, found, rfl, rfl⟩
  slots {id s'} found := by
    have bound : id < m.slots.size := (Array.getElem?_eq_some_iff.mp found).1
    refine ⟨s', ?_, rfl, rfl, fun h => h⟩
    simp only [addSlots, Array.getElem?_push, Nat.ne_of_lt bound, if_false]
    exact found

theorem addSlots_held (m : Memory) (s) : (m.addSlots s).1.slots[(m.addSlots s).2]? = some s := by
  simp [addSlots]

end Memory

/-- The binding is one that the field accepts, and what it names is there. -/
inductive Bound.Fits (m : Memory) (f : Field) : Bound → Prop
  | scalar {v : Value} (single : f.isArray = false) (type : f.element = .scalar v.type) :
      Fits m f (.scalar v)
  | array {id : BufferId} {b : Buffer} (many : f.isArray = true)
      (type : f.element = .scalar b.type) (held : m.buffers[id]? = some b) : Fits m f (.array id)
  | slots {id : SlotsId} {s : SlotArray} (type : f.element = .atomic s.width)
      (single : f.isArray = false → 0 < s.size) (canonical : s.Canonical)
      (held : m.slots[id]? = some s) : Fits m f (.slots id)

namespace Bound.Fits

variable {m : Memory} {f : Field} {b : Bound}

theorem of_scalar (h : b.Fits m f) (single : f.isArray = false) (element : f.element = .scalar t) :
    ∃ v, b = .scalar v ∧ v.type = t := by
  cases h with
  | scalar _ type => exact ⟨_, rfl, ElementType.scalar.inj (type.symm.trans element)⟩
  | array many => rw [single] at many; cases many
  | slots type => rw [element] at type; cases type

theorem of_array (h : b.Fits m f) (many : f.isArray = true) (element : f.element = .scalar t) :
    ∃ id buffer, b = .array id ∧ m.buffers[id]? = some buffer ∧ buffer.type = t := by
  cases h with
  | scalar single => rw [many] at single; cases single
  | array _ type held =>
    exact ⟨_, _, rfl, held, ElementType.scalar.inj (type.symm.trans element)⟩
  | slots type => rw [element] at type; cases type

theorem of_atomic (h : b.Fits m f) (element : f.element = .atomic w) :
    ∃ id s, b = .slots id ∧ m.slots[id]? = some s ∧ s.width = w ∧ s.Canonical ∧
      (f.isArray = false → 0 < s.size) := by
  cases h with
  | scalar _ type | array _ type => rw [element] at type; cases type
  | slots type single canonical held =>
    exact ⟨_, _, rfl, held, ElementType.atomic.inj (type.symm.trans element), canonical, single⟩

end Bound.Fits

theorem Memory.Keeps.fits {m m' : Memory} {f : Field} {b : Bound} (keeps : m.Keeps m')
    (h : b.Fits m f) : b.Fits m' f := by
  cases h with
  | scalar single type => exact .scalar single type
  | array many type held =>
    obtain ⟨b', held', type', -⟩ := keeps.buffer held
    exact .array many (type' ▸ type) held'
  | slots type single canonical held =>
    obtain ⟨s', held', width', size', canonical'⟩ := keeps.slots held
    exact .slots (width' ▸ type) (size' ▸ single) (canonical' canonical) held'

/-- Every field is bound to something that fits it. -/
def Bound.AllFit (fields : List Field) (bound : List Bound) (m : Memory) : Prop :=
  ∀ ⦃i : Nat⦄ ⦃f : Field⦄, fields[i]? = some f → ∃ b, bound[i]? = some b ∧ b.Fits m f

theorem Memory.Keeps.allFit (keeps : m.Keeps m') (h : Bound.AllFit fields bound m) :
    Bound.AllFit fields bound m' := by
  intro i f declared
  obtain ⟨b, found, fits⟩ := h declared
  exact ⟨b, found, keeps.fits fits⟩

end GridKernel
