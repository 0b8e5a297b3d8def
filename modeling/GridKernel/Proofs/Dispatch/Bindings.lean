import GridKernel.Dispatch.Kernel
import GridKernel.Proofs.Memory.Shape
import GridKernel.Proofs.Outcome

/-!
# Bindings that were made

An instance gets its bindings from `new`, `bind`, `bindScalar` and `bindSlots` alone. Each of them
looks at the field it binds, so that every binding fits its field, and it keeps fitting while the
instance and the contents of memory go through any number of executions.
-/

namespace GridKernel

namespace Kernel

variable {d : Descriptor} {k k' : Kernel} {m m' : Memory} {name : String}

/-- An instance of a descriptor beside the memory it is bound to, as the operations on instances
make them. Its state, pass number and report are free, and so are the contents of memory. -/
inductive Made (d : Descriptor) : Kernel → Memory → Prop
  | new (m : Memory) : Made d (Kernel.new d m).1 (Kernel.new d m).2
  | bind {k k' : Kernel} {m : Memory} {name : String} {id : BufferId} {b : Buffer}
      (made : Made d k m) (held : m.buffers[id]? = some b)
      (success : k.bind name id b.type = .ok k') : Made d k' m
  | bindScalar {k k' : Kernel} {m : Memory} {name : String} {v : Value} (made : Made d k m)
      (success : k.bindScalar name v = .ok k') : Made d k' m
  | bindSlots {k k' : Kernel} {m m' : Memory} {name : String} {size : Nat} (made : Made d k m)
      (success : k.bindSlots name size m = .ok (k', m')) : Made d k' m'
  | proceed {k k' : Kernel} {m m' : Memory} (made : Made d k m)
      (descriptor : k'.descriptor = k.descriptor) (bindings : k'.bindings = k.bindings)
      (keeps : m.Keeps m') : Made d k' m'

/-- Every field has a place for its binding, and the bindings that are there fit. -/
structure FitsAll (fields : List Field) (bindings : List (Option Bound)) (m : Memory) : Prop where
  length : bindings.length = fields.length
  fits : ∀ {i : Nat} {f : Field} {b : Bound}, fields[i]? = some f →
    bindings[i]? = some (some b) → b.Fits m f

variable {f : Field}

namespace FitsAll

variable {bindings : List (Option Bound)}

theorem keeps (h : FitsAll fields bindings m) (keeps : m.Keeps m') :
    FitsAll fields bindings m' where
  length := h.length
  fits declared made := keeps.fits (h.fits declared made)

/-- A field gets a binding that fits it. -/
theorem set (h : FitsAll fields bindings m) (declared : fields[i]? = some f) (fits : b.Fits m f) :
    FitsAll fields (bindings.set i (some b)) m where
  length := by rw [List.length_set, h.length]
  fits {j g b'} declared' made := by
    rw [List.getElem?_set] at made
    by_cases same : i = j
    · subst same
      obtain rfl : f = g := Option.some.inj (declared.symm.trans declared')
      rw [if_pos rfl] at made
      split at made
      · cases made
        exact fits
      · cases made
    · rw [if_neg same] at made
      exact h.fits declared' made

theorem cons (h : FitsAll fields bindings m) (fits : ∀ b', b = some b' → b'.Fits m f) :
    FitsAll (f :: fields) (b :: bindings) m where
  length := by simp [h.length]
  fits {i g b'} declared made := by
    cases i with
    | zero =>
      cases declared
      exact fits b' (Option.some.inj made)
    | succ i => exact h.fits declared made

end FitsAll

/-- Slots of a field's own width fit it, if it is an array or there is at least one. -/
theorem fits_zeroed (width : f.slotWidth? = some w) (single : f.isArray = false → 0 < size)
    (m : Memory) :
    (Bound.slots (m.addSlots (.zeroed w f.scope size)).2).Fits
      (m.addSlots (.zeroed w f.scope size)).1 f := by
  have atomic : f.element = .atomic w := by
    unfold Field.slotWidth? at width
    split at width
    · rename_i element
      rw [element, Option.some.inj width]
    · cases width
  refine .slots atomic ?_ (SlotArray.zeroed_canonical w f.scope size) (m.addSlots_held _)
  intro plain
  simpa [SlotArray.zeroed, SlotArray.size] using single plain

theorem initialBindings_fit (fields m) :
    FitsAll fields (initialBindings fields m).1 (initialBindings fields m).2 ∧
      m.Keeps (initialBindings fields m).2 := by
  induction fields generalizing m with
  | nil => exact ⟨⟨rfl, nofun⟩, .refl m⟩
  | cons f rest ih =>
    unfold initialBindings
    split
    · rename_i width slots
      obtain ⟨fit, keeps⟩ := ih (m.addSlots (.zeroed width f.scope 1)).1
      refine ⟨fit.cons ?_, (m.addSlots_keeps _).trans keeps⟩
      intro b made
      cases made
      obtain ⟨width, -⟩ := Option.filter_eq_some_iff.mp slots
      exact keeps.fits (fits_zeroed width (fun _ => Nat.one_pos) m)
    · obtain ⟨fit, keeps⟩ := ih m
      exact ⟨fit.cons nofun, keeps⟩

theorem field_eq_ok (h : k.field name = .ok (i, f)) : k.descriptor.fields[i]? = some f := by
  unfold Kernel.field at h
  split at h
  · cases h
  · split at h
    · rename_i found
      cases h
      exact found
    · cases h

theorem scalar_of_scalarType (h : f.scalarType? = some t) : f.element = .scalar t := by
  unfold Field.scalarType? at h
  split at h
  · rename_i element
    rw [element, Option.some.inj h]
  · cases h

/-- What a successful binding operation did: it set the binding of one field. -/
theorem bind_eq_ok {id : BufferId} (h : k.bind name id t = .ok k') :
    ∃ i f, k.descriptor.fields[i]? = some f ∧ f.isArray = true ∧ f.element = .scalar t ∧
      k' = k.setBinding i (.array id) := by
  obtain ⟨⟨i, f⟩, found, h⟩ := Outcome.bind_eq_ok.mp h
  obtain ⟨accepted, h⟩ := Outcome.ite_eq_ok.mp h
  simp only [Bool.and_eq_true, decide_eq_true_eq] at accepted
  exact ⟨i, f, field_eq_ok found, accepted.1, scalar_of_scalarType accepted.2,
    (Outcome.pure_eq_ok.mp h).symm⟩

theorem bindScalar_eq_ok (h : k.bindScalar name v = .ok k') :
    ∃ i f, k.descriptor.fields[i]? = some f ∧ f.isArray = false ∧ f.element = .scalar v.type ∧
      k' = k.setBinding i (.scalar v) := by
  obtain ⟨⟨i, f⟩, found, h⟩ := Outcome.bind_eq_ok.mp h
  obtain ⟨accepted, h⟩ := Outcome.ite_eq_ok.mp h
  simp only [Bool.and_eq_true, Bool.not_eq_true', decide_eq_true_eq] at accepted
  exact ⟨i, f, field_eq_ok found, accepted.1, scalar_of_scalarType accepted.2,
    (Outcome.pure_eq_ok.mp h).symm⟩

theorem bindSlots_eq_ok (h : k.bindSlots name size m = .ok (k', m')) :
    ∃ i f w, k.descriptor.fields[i]? = some f ∧ f.isArray = true ∧ f.slotWidth? = some w ∧
      m' = (m.addSlots (.zeroed w f.scope size)).1 ∧
      k' = k.setBinding i (.slots (m.addSlots (.zeroed w f.scope size)).2) := by
  obtain ⟨⟨i, f⟩, found, h⟩ := Outcome.bind_eq_ok.mp h
  cases slots : f.slotWidth?.filter fun _ => f.isArray with
  | none => simp only [slots] at h; cases h
  | some w =>
    simp only [slots] at h
    obtain ⟨width, many⟩ := Option.filter_eq_some_iff.mp slots
    cases h
    exact ⟨i, f, w, field_eq_ok found, many, width, rfl, rfl⟩

theorem Made.descriptor (made : Made d k m) : k.descriptor = d := by
  induction made with
  | new m => rfl
  | bind _ _ success ih =>
    obtain ⟨i, f, -, -, -, rfl⟩ := bind_eq_ok success
    exact ih
  | bindScalar _ success ih =>
    obtain ⟨i, f, -, -, -, rfl⟩ := bindScalar_eq_ok success
    exact ih
  | bindSlots _ success ih =>
    obtain ⟨i, f, w, -, -, -, -, rfl⟩ := bindSlots_eq_ok success
    exact ih
  | proceed _ descriptor _ _ ih => exact descriptor.trans ih

theorem Made.fitsAll (made : Made d k m) : FitsAll d.fields k.bindings m := by
  induction made with
  | new m => exact (initialBindings_fit d.fields m).1
  | bind made held success ih =>
    obtain ⟨i, f, declared, many, type, rfl⟩ := bind_eq_ok success
    rw [made.descriptor] at declared
    exact ih.set declared (.array many type held)
  | bindScalar made success ih =>
    obtain ⟨i, f, declared, single, type, rfl⟩ := bindScalar_eq_ok success
    rw [made.descriptor] at declared
    exact ih.set declared (.scalar single type)
  | bindSlots made success ih =>
    obtain ⟨i, f, w, declared, many, width, rfl, rfl⟩ := bindSlots_eq_ok success
    rw [made.descriptor] at declared
    refine (ih.keeps (Memory.addSlots_keeps _ _)).set declared (fits_zeroed width ?_ _)
    intro single
    rw [many] at single
    cases single
  | proceed _ _ bindings keeps ih =>
    rw [bindings]
    exact ih.keeps keeps

variable {bound : List Bound}

theorem Made.bound_length (made : Made d k m) (complete : k.bound = .ok bound) :
    bound.length = d.fields.length := by
  rw [(Outcome.mapM_eq_ok complete).1, List.length_zip, made.descriptor, made.fitsAll.length,
    Nat.min_self]

/-- With every field bound, each is bound to something that fits it. -/
theorem Made.allFit (made : Made d k m) (complete : k.bound = .ok bound) :
    Bound.AllFit d.fields bound m := by
  intro i f declared
  have all := made.fitsAll
  have inBounds : i < k.bindings.length := by
    rw [all.length]
    exact (List.getElem?_eq_some_iff.mp declared).1
  have paired : (k.descriptor.fields.zip k.bindings)[i]? = some (f, k.bindings[i]) := by
    rw [made.descriptor, List.getElem?_zip_eq_some]
    exact ⟨declared, List.getElem?_eq_getElem inBounds⟩
  obtain ⟨b, found, checked⟩ := (Outcome.mapM_eq_ok complete).2 paired
  refine ⟨b, found, all.fits declared ?_⟩
  rw [List.getElem?_eq_getElem inBounds]
  cases stored : k.bindings[i] with
  | none => simp only [stored] at checked; cases checked
  | some b' =>
    simp only [stored] at checked
    rw [Except.ok.inj checked]

/-- Slots that are bound hold values of their width. -/
theorem Made.canonical {id : SlotsId} (made : Made d k m) (complete : k.bound = .ok bound)
    (member : Bound.slots id ∈ bound) (held : m.slots[id]? = some s) : s.Canonical := by
  obtain ⟨i, found⟩ := List.mem_iff_getElem?.mp member
  have inBounds : i < d.fields.length :=
    made.bound_length complete ▸ (List.getElem?_eq_some_iff.mp found).1
  obtain ⟨b, found', fits⟩ := made.allFit complete (List.getElem?_eq_getElem inBounds)
  obtain rfl := Option.some.inj (found.symm.trans found')
  cases fits with
  | slots _ _ canonical held' =>
    obtain rfl := Option.some.inj (held.symm.trans held')
    exact canonical

end Kernel

end GridKernel
