import GridKernel.Proofs.Memory.Shape

/-!
# Snapshots undo

A run puts other contents into some buffers and slots and leaves everything else alone.
`Memory.Changes` says so of the memory before and after it. A snapshot of these buffers and slots
brings the memory back as it was, also where two fields are bound to one buffer.
-/

namespace GridKernel

/-! ## Arrays that differ in places -/

/-- The second array differs from the first only where `inside` holds, and nowhere in `shape`. -/
structure Differs {α β : Type} (shape : α → β) (inside : Nat → Prop) (a a' : Array α) : Prop where
  shapes : ∀ i : Nat, a'[i]?.map shape = a[i]?.map shape
  outside : ∀ i : Nat, ¬inside i → a'[i]? = a[i]?

namespace Differs

variable {α β γ : Type}

theorem refl (a) : Differs shape inside a a := ⟨fun _ => rfl, fun _ _ => rfl⟩

theorem trans (first : Differs shape inside a a') (second : Differs shape inside a' a'') :
    Differs shape inside a a'' where
  shapes i := (second.shapes i).trans (first.shapes i)
  outside i apart := (second.outside i apart).trans (first.outside i apart)

theorem modify (within : inside i) (keeps : ∀ x, a[i]? = some x → shape (f x) = shape x) :
    Differs shape inside a (a.modify i f) where
  shapes j := by
    rw [Array.getElem?_modify]
    split
    · rename_i same
      subst same
      cases held : a[i]? with
      | none => rfl
      | some x => exact congrArg some (keeps x held)
    · rfl
  outside j apart := by
    have other : i ≠ j := fun same => apart (same ▸ within)
    rw [Array.getElem?_modify, if_neg other]

/-- Putting back what was at one place. -/
theorem putBack (h : Differs shape inside a a') (held : a[i]? = some x)
    (undo : ∀ y, shape y = shape x → f y = x) :
    Differs shape (fun j => inside j ∧ j ≠ i) a (a'.modify i f) := by
  have back : (a'.modify i f)[i]? = some x := by
    have shapes := h.shapes i
    rw [held] at shapes
    obtain ⟨y, held', same⟩ := Option.map_eq_some_iff.mp shapes
    rw [Array.getElem?_modify, if_pos rfl, held', Option.map_some, undo y same]
  refine ⟨fun j => ?_, fun j apart => ?_⟩
  all_goals by_cases same : i = j
  · rw [← same, back, held]
  · rw [Array.getElem?_modify, if_neg same]
    exact h.shapes j
  · rw [← same, back, held]
  · rw [Array.getElem?_modify, if_neg same]
    exact h.outside j fun within => apart ⟨within, fun equal => same equal.symm⟩

/-- Putting back what was at several places, one after the other; a place may come twice. -/
theorem putAllBack (h : Differs shape inside a a') (f : γ → α → α) {saved : List (Nat × γ)}
    (undo : ∀ p ∈ saved, ∃ x, a[p.1]? = some x ∧ ∀ y, shape y = shape x → f p.2 y = x) :
    Differs shape (fun j => inside j ∧ ∀ p ∈ saved, j ≠ p.1) a
      (saved.foldl (fun a p => a.modify p.1 (f p.2)) a') := by
  induction saved generalizing a' inside with
  | nil => exact ⟨h.shapes, fun j apart => h.outside j fun within => apart ⟨within, nofun⟩⟩
  | cons p rest ih =>
    obtain ⟨x, held, back⟩ := undo p List.mem_cons_self
    have later := ih (h.putBack held back) fun q member => undo q (List.mem_cons_of_mem p member)
    refine ⟨later.shapes, fun j apart => later.outside j ?_⟩
    rintro ⟨⟨within, first⟩, others⟩
    exact apart ⟨within, List.forall_mem_cons.mpr ⟨first, others⟩⟩

/-- Arrays that differ nowhere. -/
theorem eq (h : Differs shape inside a a') (nowhere : ∀ i x, a[i]? = some x → ¬inside i) :
    a' = a := by
  refine Array.ext_getElem? fun i => ?_
  cases held : a[i]? with
  | none =>
    have shapes := h.shapes i
    rw [held] at shapes
    exact Option.map_eq_none_iff.mp shapes
  | some x => rw [h.outside i (nowhere i x held), held]

end Differs

/-! ## Memories that differ in places -/

/-- All of an array of slots but its contents. -/
def SlotArray.shape (s : SlotArray) : SlotWidth × SlotScope × Nat := (s.width, s.scope, s.size)

theorem SlotArray.perform?_shape {s after : SlotArray}
    (h : s.perform? i op operands = some (after, result)) : after.shape = s.shape := by
  obtain ⟨_, _, rfl, _⟩ := perform?_eq_some h
  simp [shape, size]

/-- Contents that were in range come back as they were. -/
theorem SlotArray.restore_eq {s old : SlotArray} (shape : s.shape = old.shape)
    (canonical : old.Canonical) : s.restore old.cells.toList = old := by
  obtain ⟨width, scope, cells⟩ := s
  obtain ⟨width', scope', cells'⟩ := old
  simp only [SlotArray.shape, size, Prod.mk.injEq] at shape
  obtain ⟨rfl, rfl, length⟩ := shape
  unfold restore
  simp only [mk.injEq, true_and]
  refine Array.ext (by simpa using length) ?_
  intro i inBounds inBounds'
  have wrapped : width.wrap cells'[i] = cells'[i] := canonical _ (Array.getElem_mem inBounds')
  simp [inBounds', wrapped]

/-- The buffer is bound to a field that the kernel writes. -/
def Bound.Writable (d : Descriptor) (bound : List Bound) (id : BufferId) : Prop :=
  ∃ (i : Nat) (f : Field), d.fields[i]? = some f ∧ f.isWritten = true ∧
    bound[i]? = some (.array id)

/-- The memories differ only in the contents of what the kernel writes: the buffers of its written
fields, and its slots. -/
structure Memory.Changes (d : Descriptor) (bound : List Bound) (m m' : Memory) : Prop where
  buffers : Differs Buffer.type (Bound.Writable d bound) m.buffers m'.buffers
  slots : Differs SlotArray.shape (fun id => Bound.slots id ∈ bound) m.slots m'.slots

namespace Memory.Changes

theorem refl (m) : Changes d bound m m := ⟨.refl _, .refl _⟩

theorem trans (first : Changes d bound m m') (second : Changes d bound m' m'') :
    Changes d bound m m'' :=
  ⟨first.buffers.trans second.buffers, first.slots.trans second.slots⟩

theorem modifyBuffer {id : BufferId} (writable : Bound.Writable d bound id)
    (type : ∀ b, m.buffers[id]? = some b → (f b).type = b.type) :
    Changes d bound m (m.modifyBuffer id f) :=
  ⟨.modify writable type, .refl _⟩

theorem modifySlots {id : SlotsId} (member : Bound.slots id ∈ bound)
    (shape : ∀ s, m.slots[id]? = some s → (f s).shape = s.shape) :
    Changes d bound m (m.modifySlots id f) :=
  ⟨.refl _, .modify member shape⟩

end Memory.Changes

/-! ## Restoring -/

namespace Snapshot

/-- Restoring goes through buffers and slots apart from each other. -/
theorem restore_apart (s : Snapshot) (m) :
    s.restore m =
      ⟨s.arrays.foldl (fun a p => a.modify p.1 fun b => { b with cells := p.2 }) m.buffers,
        s.slots.foldl (fun a p => a.modify p.1 fun t => t.restore p.2.toList) m.slots⟩ := by
  obtain ⟨arrays, slots⟩ := s
  unfold restore
  induction arrays generalizing m with
  | cons p rest ih => exact ih (m.modifyBuffer p.1 fun b => { b with cells := p.2 })
  | nil =>
    induction slots generalizing m with
    | cons p rest ih => exact ih (m.modifySlots p.1 fun t => t.restore p.2.toList)
    | nil => rfl

theorem mem_arrays {id : BufferId} (writable : Bound.Writable d bound id)
    (held : m.buffers[id]? = some b) : (id, b.cells) ∈ (capture d bound m).arrays := by
  obtain ⟨i, f, declared, written, found⟩ := writable
  have paired : (f, Bound.array id) ∈ d.fields.zip bound :=
    List.mem_of_getElem? (List.getElem?_zip_eq_some.mpr ⟨declared, found⟩)
  refine List.mem_filterMap.mpr ⟨_, paired, ?_⟩
  simp [written, Memory.buffer?, held]

theorem mem_slots {id : SlotsId} (member : Bound.slots id ∈ bound) (held : m.slots[id]? = some s) :
    (id, s.cells) ∈ (capture d bound m).slots := by
  refine List.mem_filterMap.mpr ⟨_, member, ?_⟩
  simp [Memory.slots?, held]

/-- What a snapshot holds is what was in memory. -/
theorem arrays_held {id : BufferId} (saved : (id, cells) ∈ (capture d bound m).arrays) :
    ∃ b, m.buffers[id]? = some b ∧ b.cells = cells := by
  obtain ⟨⟨f, b⟩, -, taken⟩ := List.mem_filterMap.mp saved
  cases b with
  | scalar v | slots id' => cases taken
  | array id' =>
    dsimp only at taken
    split at taken
    · obtain ⟨b, held, same⟩ := Option.map_eq_some_iff.mp taken
      cases same
      exact ⟨b, held, rfl⟩
    · cases taken

theorem slots_held {id : SlotsId} (saved : (id, cells) ∈ (capture d bound m).slots) :
    ∃ s, Bound.slots id ∈ bound ∧ m.slots[id]? = some s ∧ s.cells = cells := by
  obtain ⟨b, member, taken⟩ := List.mem_filterMap.mp saved
  cases b with
  | scalar v | array id' => cases taken
  | slots id' =>
    obtain ⟨s, held, same⟩ := Option.map_eq_some_iff.mp taken
    cases same
    exact ⟨s, member, held, rfl⟩

/-- A snapshot undoes whatever the kernel may have changed. -/
theorem restore_capture (changes : Memory.Changes d bound m m')
    (canonical : ∀ id s, Bound.slots id ∈ bound → m.slots[id]? = some s → s.Canonical) :
    (capture d bound m).restore m' = m := by
  have keptArrays : ∀ p ∈ (capture d bound m).arrays, ∃ b, m.buffers[p.1]? = some b ∧
      ∀ b' : Buffer, b'.type = b.type → { b' with cells := p.2 } = b := by
    rintro ⟨id, cells⟩ saved
    obtain ⟨⟨type, _⟩, held, rfl⟩ := arrays_held saved
    refine ⟨_, held, ?_⟩
    rintro ⟨type', cells'⟩ rfl
    rfl
  have keptSlots : ∀ p ∈ (capture d bound m).slots, ∃ s, m.slots[p.1]? = some s ∧
      ∀ s' : SlotArray, s'.shape = s.shape → s'.restore p.2.toList = s := by
    rintro ⟨id, cells⟩ saved
    obtain ⟨s, member, held, rfl⟩ := slots_held saved
    exact ⟨s, held, fun s' shape => SlotArray.restore_eq shape (canonical id s member held)⟩
  have buffers := changes.buffers.putAllBack (fun cells b => { b with cells := cells }) keptArrays
  have slots := changes.slots.putAllBack (fun (cells : Array Int64) s => s.restore cells.toList)
    keptSlots
  rw [restore_apart, buffers.eq, slots.eq]
  · rintro id s held ⟨member, others⟩
    exact others _ (mem_slots member held) rfl
  · rintro id b held ⟨writable, others⟩
    exact others _ (mem_arrays writable held) rfl

end Snapshot

end GridKernel
