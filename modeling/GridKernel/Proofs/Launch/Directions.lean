import GridKernel.Proofs.Dispatch.Rollback
import GridKernel.Proofs.Launch.Order
import GridKernel.Proofs.Memory.Cells
import Mathlib.Logic.Relation

/-!
# Directions of fields

A field has the direction `readWrite` if some method of the kernel stores into it. Memory changes in
a run by single writes, and each of them goes through such a field, however the run ends and however
deep the call was that made it. So whatever is bound to fields of the other direction stays as it
was, and since what is constant has the other direction, no constant is written.
-/

namespace GridKernel

/-! ## Writes -/

/-- One write to memory through a field that the kernel writes. -/
inductive Memory.Write (d : Descriptor) (bound : List Bound) : Memory → Memory → Prop
  | element {m : Memory} {i : Nat} {f : Field} {id : BufferId} (declared : d.fields[i]? = some f)
      (direction : f.direction = .readWrite) (found : bound[i]? = some (.array id)) (k : Nat)
      (v : Value) : Write d bound m (m.modifyBuffer id (·.store k v))
  | slot {m : Memory} {i : Nat} {f : Field} {id : SlotsId} {s after : SlotArray} {k : Nat}
      {op : AtomicOp} {operands : List Int64} {result : Int64} (declared : d.fields[i]? = some f)
      (direction : f.direction = .readWrite) (found : bound[i]? = some (.slots id))
      (held : m.slots[id]? = some s) (performed : s.perform? k op operands = some (after, result)) :
      Write d bound m (m.modifySlots id fun _ => after)

/-- Any number of writes, one after the other. -/
def Memory.Writes (d : Descriptor) (bound : List Bound) : Memory → Memory → Prop :=
  Relation.ReflTransGen (Memory.Write d bound)

/-- A buffer that is bound, if at all, to fields that the kernel only reads. -/
def Bound.OnlyRead (d : Descriptor) (bound : List Bound) (id : BufferId) : Prop :=
  ∀ (i : Nat) (f : Field), d.fields[i]? = some f → bound[i]? = some (.array id) →
    f.direction = .readOnly

/-- No two fields are bound to the same slots. -/
def Bound.SlotsApart (bound : List Bound) : Prop :=
  ∀ (i j : Nat) (id : SlotsId), bound[i]? = some (.slots id) → bound[j]? = some (.slots id) → i = j

variable {f : Field} {i : Nat}

namespace Memory

variable {d : Descriptor} {bound : List Bound} {m m' : Memory}

theorem Write.buffer_kept (h : Write d bound m m') {id : BufferId}
    (onlyRead : Bound.OnlyRead d bound id) : m'.buffers[id]? = m.buffers[id]? := by
  cases h with
  | @element i f written declared direction found k v =>
    have other : written ≠ id := by
      rintro rfl
      rw [onlyRead i f declared found] at direction
      cases direction
    simp [modifyBuffer, Array.getElem?_modify, other]
  | slot => rfl

theorem Write.slots_kept (h : Write d bound m m') (apart : Bound.SlotsApart bound) {id : SlotsId}
    (declared : d.fields[i]? = some f) (direction : f.direction = .readOnly)
    (found : bound[i]? = some (.slots id)) : m'.slots[id]? = m.slots[id]? := by
  cases h with
  | element => rfl
  | @slot j g written _ _ _ _ _ _ declared' direction' found' =>
    have other : written ≠ id := by
      rintro rfl
      obtain rfl := apart i j written found found'
      obtain rfl : f = g := Option.some.inj (declared.symm.trans declared')
      rw [direction] at direction'
      cases direction'
    simp [modifySlots, Array.getElem?_modify, other]

theorem Writes.buffer_kept (h : Writes d bound m m') {id : BufferId}
    (onlyRead : Bound.OnlyRead d bound id) : m'.buffers[id]? = m.buffers[id]? := by
  induction h with
  | refl => rfl
  | tail _ write ih => exact (write.buffer_kept onlyRead).trans ih

theorem Writes.slots_kept (h : Writes d bound m m') (apart : Bound.SlotsApart bound) {id : SlotsId}
    (declared : d.fields[i]? = some f) (direction : f.direction = .readOnly)
    (found : bound[i]? = some (.slots id)) : m'.slots[id]? = m.slots[id]? := by
  induction h with
  | refl => rfl
  | tail _ write ih => exact (write.slots_kept apart declared direction found).trans ih

end Memory

/-! ## Directions of a built kernel -/

namespace Schema

variable {s : Schema} {d : Descriptor}

theorem field_space (h : field written decl = .ok f) (constant : f.space = .constant) :
    f.direction = .readOnly := by
  obtain ⟨element, -, h⟩ := Outcome.bind_eq_ok.mp h
  dsimp only at h
  obtain ⟨-, h⟩ := Outcome.ite_error_eq_ok.mp h
  obtain ⟨-, h⟩ := Outcome.ite_error_eq_ok.mp h
  obtain ⟨unwritten, h⟩ := Outcome.ite_error_eq_ok.mp h
  obtain rfl := Except.ok.inj h
  dsimp only at constant ⊢
  rw [constant] at unwritten
  split
  · next member =>
    rw [if_pos member] at unwritten
    exact absurd rfl unwritten
  · rfl

/-- What is constant is only read. -/
theorem build_constant (built : s.build = .ok d) (member : f ∈ d.fields)
    (constant : f.space = .constant) : f.direction = .readOnly := by
  obtain ⟨i, declared⟩ := List.mem_iff_getElem?.mp member
  obtain ⟨decl, -, made⟩ := build_field built declared
  exact field_space made constant

/-- A field that some method stores into. -/
theorem build_readWrite (built : s.build = .ok d) {name : String}
    (written : name ∈ Method.writtenFields d.methods) (index : d.fieldIndex? name = some i) :
    ∃ f, d.fields[i]? = some f ∧ f.direction = .readWrite := by
  obtain ⟨inBounds, named, -⟩ := List.findIdx?_eq_some_iff_getElem.mp index
  have declared : d.fields[i]? = some d.fields[i] := List.getElem?_eq_getElem inBounds
  have isWritten := (build_isWritten built declared).mpr (eq_of_beq named ▸ written)
  exact ⟨d.fields[i], declared, of_decide_eq_true isWritten⟩

end Schema

/-- Evaluation writes through fields that the kernel writes. -/
theorem Eval.writes_framed {s : Schema} {c : Context} (built : s.build = .ok c.descriptor) :
    Framed c (· ∈ Method.writtenFields c.descriptor.methods)
      (Memory.Writes c.descriptor c.bound) where
  refl _ := .refl
  trans := .trans
  store written index found _ k v := by
    obtain ⟨f, declared, direction⟩ := Schema.build_readWrite built written index
    exact .single (.element declared direction found k v)
  perform {_ _ _ op _ _ _ _ _ _} written index found held performed := by
    cases writes : op.writes with
    | true =>
      obtain ⟨f, declared, direction⟩ := Schema.build_readWrite built (written writes) index
      exact .single (.slot declared direction found held performed)
    | false =>
      obtain rfl := SlotArray.perform?_read writes performed
      rw [Memory.modifySlots_self held]
      exact .refl

/-! ## Slots of an instance -/

namespace Kernel

variable {d : Descriptor} {m m' : Memory}

/-- Every field has slots of its own, and they are there. -/
structure OwnSlots (bindings : List (Option Bound)) (m : Memory) : Prop where
  held : ∀ {i : Nat} {id : SlotsId}, bindings[i]? = some (some (.slots id)) → id < m.slots.size
  apart : ∀ {i j : Nat} {id : SlotsId}, bindings[i]? = some (some (.slots id)) →
    bindings[j]? = some (some (.slots id)) → i = j

namespace OwnSlots

variable {bindings : List (Option Bound)}

theorem nil (m) : OwnSlots [] m := ⟨nofun, nofun⟩

theorem cons (h : OwnSlots bindings m)
    (own : ∀ id, b = some (.slots id) → id < m.slots.size ∧ ∀ j : Nat, bindings[j]? ≠ some
      (some (.slots id))) :
    OwnSlots (b :: bindings) m where
  held {i id} bound := by
    cases i with
    | zero => exact (own id (Option.some.inj bound)).1
    | succ i => exact h.held bound
  apart {i j id} bound bound' := by
    cases i with
    | zero =>
      cases j with
      | zero => rfl
      | succ j => exact absurd bound' ((own id (Option.some.inj bound)).2 j)
    | succ i =>
      cases j with
      | zero => exact absurd bound ((own id (Option.some.inj bound')).2 i)
      | succ j => exact congrArg (· + 1) (h.apart bound bound')

/-- A binding that is not to slots does not matter. -/
theorem set (h : OwnSlots bindings m) (n) (other : ∀ id, b ≠ .slots id) :
    OwnSlots (bindings.set n (some b)) m := by
  have earlier : ∀ {i : Nat} {id : SlotsId},
      (bindings.set n (some b))[i]? = some (some (.slots id)) →
        bindings[i]? = some (some (.slots id)) := by
    intro i id bound
    rw [List.getElem?_set] at bound
    split at bound
    · split at bound
      · exact absurd (Option.some.inj (Option.some.inj bound)) (other id)
      · cases bound
    · exact bound
  exact ⟨fun bound => h.held (earlier bound), fun bound bound' =>
    h.apart (earlier bound) (earlier bound')⟩

/-- Slots that are added to memory belong to nobody yet. -/
theorem setSlots (h : OwnSlots bindings m) (n s) :
    OwnSlots (bindings.set n (some (.slots (m.addSlots s).2))) (m.addSlots s).1 := by
  have origin : ∀ {i : Nat} {id : SlotsId},
      (bindings.set n (some (.slots (m.addSlots s).2)))[i]? = some (some (.slots id)) →
      i = n ∧ id = m.slots.size ∨ i ≠ n ∧ bindings[i]? = some (some (.slots id)) := by
    intro i id bound
    rw [List.getElem?_set] at bound
    split at bound
    · next same =>
      split at bound
      · cases bound
        exact .inl ⟨same.symm, rfl⟩
      · cases bound
    · next different => exact .inr ⟨fun same => different same.symm, bound⟩
  constructor
  · intro i id bound
    simp only [Memory.addSlots, Array.size_push]
    rcases origin bound with ⟨-, rfl⟩ | ⟨-, earlier⟩
    · exact Nat.lt_succ_self _
    · exact Nat.lt_succ_of_lt (h.held earlier)
  · intro i j id bound bound'
    rcases origin bound with ⟨rfl, rfl⟩ | ⟨-, earlier⟩
    · rcases origin bound' with ⟨rfl, -⟩ | ⟨-, earlier'⟩
      · rfl
      · exact absurd (h.held earlier') (Nat.lt_irrefl _)
    · rcases origin bound' with ⟨-, rfl⟩ | ⟨-, earlier'⟩
      · exact absurd (h.held earlier) (Nat.lt_irrefl _)
      · exact h.apart earlier earlier'

theorem keeps (h : OwnSlots bindings m) (keeps : m.Keeps m') : OwnSlots bindings m' where
  held bound := by
    obtain ⟨s', held', -⟩ := keeps.slots (Array.getElem?_eq_getElem (h.held bound))
    exact (Array.getElem?_eq_some_iff.mp held').1
  apart := h.apart

end OwnSlots

/-- The slots of a new instance come after all slots that are there. -/
theorem initialBindings_fresh (fields) {id : SlotsId}
    (bound : (initialBindings fields m).1[i]? = some (some (.slots id))) : m.slots.size ≤ id := by
  induction fields generalizing m i with
  | nil => simp [initialBindings] at bound
  | cons f rest ih =>
    unfold initialBindings at bound
    split at bound
    · next width _ =>
      cases i with
      | zero =>
        cases bound
        exact Nat.le_refl _
      | succ i =>
        have later := ih (m := (m.addSlots (.zeroed width f.scope 1)).1) bound
        simp only [Memory.addSlots, Array.size_push] at later
        omega
    · cases i with
      | zero => cases bound
      | succ i => exact ih bound

theorem initialBindings_own (fields m) :
    OwnSlots (initialBindings fields m).1 (initialBindings fields m).2 := by
  induction fields generalizing m with
  | nil => exact .nil m
  | cons f rest ih =>
    unfold initialBindings
    split
    · next width _ =>
      let added := m.addSlots (.zeroed width f.scope 1)
      refine (ih added.1).cons ?_
      rintro id ⟨⟩
      obtain ⟨s', held', -⟩ := (initialBindings_fit rest added.1).2.slots (m.addSlots_held _)
      refine ⟨(Array.getElem?_eq_some_iff.mp held').1, fun j bound => ?_⟩
      have later := initialBindings_fresh rest bound
      simp only [added, Memory.addSlots, Array.size_push] at later
      omega
    · refine (ih m).cons ?_
      intro id unbound
      cases unbound

theorem Made.ownSlots (made : Made d k m) : OwnSlots k.bindings m := by
  induction made with
  | new m => exact initialBindings_own d.fields m
  | bind _ _ success ih =>
    obtain ⟨i, f, -, -, -, rfl⟩ := bind_eq_ok success
    exact ih.set i nofun
  | bindScalar _ success ih =>
    obtain ⟨i, f, -, -, -, rfl⟩ := bindScalar_eq_ok success
    exact ih.set i nofun
  | bindSlots _ success ih =>
    obtain ⟨i, f, w, -, -, -, rfl, rfl⟩ := bindSlots_eq_ok success
    exact ih.setSlots i _
  | proceed _ _ bindings keeps ih =>
    rw [bindings]
    exact ih.keeps keeps

/-- With every field bound, the fields are bound to what the instance holds for them. -/
theorem Made.binding_of_bound {bound : List Bound} (made : Made d k m)
    (complete : k.bound = .ok bound) (found : bound[i]? = some b) :
    k.bindings[i]? = some (some b) := by
  have inFields : i < d.fields.length :=
    made.bound_length complete ▸ (List.getElem?_eq_some_iff.mp found).1
  have inBindings : i < k.bindings.length := made.fitsAll.length ▸ inFields
  have paired : (k.descriptor.fields.zip k.bindings)[i]? =
      some (d.fields[i], k.bindings[i]) := by
    rw [made.descriptor, List.getElem?_zip_eq_some]
    exact ⟨List.getElem?_eq_getElem inFields, List.getElem?_eq_getElem inBindings⟩
  obtain ⟨b', found', checked⟩ := (Outcome.mapM_eq_ok complete).2 paired
  obtain rfl := Option.some.inj (found.symm.trans found')
  rw [List.getElem?_eq_getElem inBindings]
  cases stored : k.bindings[i] with
  | none => simp only [stored] at checked; cases checked
  | some b' =>
    simp only [stored] at checked
    rw [Except.ok.inj checked]

theorem Made.slotsApart {bound : List Bound} (made : Made d k m) (complete : k.bound = .ok bound) :
    Bound.SlotsApart bound := fun _ _ _ found found' =>
  made.ownSlots.apart (made.binding_of_bound complete found) (made.binding_of_bound complete found')

end Kernel

/-! ## Runs -/

/-- From the first memory to the second one everything was written through fields that the kernel
writes, and what is bound to the other fields is as it was. -/
structure Memory.Respects (d : Descriptor) (bound : List Bound) (m m' : Memory) : Prop where
  writes : Memory.Writes d bound m m'
  buffers : ∀ id, Bound.OnlyRead d bound id → m'.buffers[id]? = m.buffers[id]?
  slots : ∀ (i : Nat) (f : Field) (id : SlotsId), d.fields[i]? = some f →
    f.direction = .readOnly → bound[i]? = some (.slots id) → m'.slots[id]? = m.slots[id]?

theorem Memory.Writes.respects {bound : List Bound} (h : Memory.Writes d bound m m')
    (apart : Bound.SlotsApart bound) :
    Memory.Respects d bound m m' where
  writes := h
  buffers _ onlyRead := h.buffer_kept onlyRead
  slots _ _ _ declared direction found := h.slots_kept apart declared direction found

namespace Launch

variable {s : Schema} {l : Launch}

theorem Reaches.writes (built : s.build = .ok l.descriptor) (h : l.Reaches m m') :
    Memory.Writes l.descriptor l.bound m m' :=
  h.moves (Eval.writes_framed (c := l.context 0) built) fun _ member => Method.writesOnly member

/-- Whatever work-items run, in order, on a pool in whichever turns or in any other order, and whether
they complete or one of them stops early: all writes go through fields with the direction
`readWrite`. A buffer that is bound to fields with the direction `readOnly` alone stays as it was,
and so do the slots of a field with this direction; all constant fields have it. -/
theorem directions_are_sound {d : Descriptor} (built : s.build = .ok d) {k : Kernel} {m : Memory}
    (made : k.Made d m) {bound : List Bound} (complete : k.bound = .ok bound) (range : Range)
    (localSize : Dim3) (passId : Int32) (steps : Nat) :
    let l : Launch := ⟨d, bound, range, localSize, passId⟩
    (∀ order, Memory.Respects d bound m (l.runOrder steps order m).1) ∧
      Memory.Respects d bound m (l.runSequential steps m).1 ∧
      (∀ (pool : Pool) (threads : Nat), pool.Joins →
        Memory.Respects d bound m (l.runPooled pool steps threads m).1) ∧
      ∀ f ∈ d.fields, f.space = .constant → f.direction = .readOnly := by
  intro l
  have respects : ∀ {m'}, l.Reaches m m' → Memory.Respects d bound m m' := fun reached =>
    (reached.writes (l := l) built).respects (made.slotsApart complete)
  have ordered := fun order => respects (l.runOrder_reaches steps order m)
  refine ⟨ordered, ?_, fun pool threads joins => respects (joins l steps _ m),
    fun f member => Schema.build_constant built member⟩
  rw [runSequential_eq]
  exact ordered _

/-- The entry point calls a helper, which calls another one; the last of them stores. -/
def relayMain : Method where
  name := "run"
  body := [.expr (.call "relay" [.globalId 0])]

def relayHelper : Method where
  name := "relay"
  params := [⟨"i", .int⟩]
  body := [
    .expr (.call "deposit" [.var "i", .atomic .get ⟨"seen", none⟩ []])]

def depositHelper : Method where
  name := "deposit"
  params := [⟨"i", .int⟩, ⟨"base", .int⟩]
  body := [
    .expr (.atomic .inc ⟨"done", none⟩ []),
    .expr (.assign (.element "out" (.var "i")) none
      (.binary .add (.element "table" (.var "i")) (.var "base")))]

def relaySchema : Schema where
  name := "Relay"
  fields := [
    { name := "table", type := .scalar .int, shape := .array, space := .constant },
    { name := "out", type := .scalar .int, shape := .array },
    { name := "seen", type := .atomic .int },
    { name := "done", type := .atomic .int }]
  methods := [relayMain, relayHelper, depositHelper]

def relayDescriptor : Descriptor where
  name := "Relay"
  fields := [⟨"table", .scalar .int, .array, .constant, .readOnly⟩,
    ⟨"out", .scalar .int, .array, .global, .readWrite⟩,
    ⟨"seen", .atomic .int, .scalar, .global, .readOnly⟩,
    ⟨"done", .atomic .int, .scalar, .global, .readWrite⟩]
  main := relayMain
  helpers := [relayHelper, depositHelper]

def relayMemory : Memory where
  buffers := #[⟨.int, #[10, 20, 30]⟩, ⟨.int, #[0, 0]⟩]

/-- A new instance with its two arrays bound. -/
def relayKernel : Kernel :=
  ((Kernel.new relayDescriptor relayMemory).1.setBinding 0 (.array 0)).setBinding 1 (.array 1)

/-- The third of three work-items is out of bounds after it has counted itself. -/
theorem relay_respects_directions :
    let m := (Kernel.new relayDescriptor relayMemory).2
    let bound : List Bound := [.array 0, .array 1, .slots 0, .slots 1]
    let l : Launch := ⟨relayDescriptor, bound, ⟨[3], none, by decide⟩, ⟨1, 1, 1⟩, 0⟩
    relaySchema.build = .ok relayDescriptor ∧ relayKernel.Made relayDescriptor m ∧
      relayKernel.bound = .ok bound ∧
      l.runSequential 40 m =
        ({ buffers := #[⟨.int, #[10, 20, 30]⟩, ⟨.int, #[10, 20]⟩]
           slots := #[⟨.int, .global, #[0]⟩, ⟨.int, .global, #[3]⟩] },
          some ⟨⟨2, 0, 0⟩, .trap (.outOfBounds 2 "out" 2)⟩) ∧
      Bound.OnlyRead relayDescriptor bound 0 ∧
      Memory.Respects relayDescriptor bound m (l.runSequential 40 m).1 := by
  intro m bound l
  have built : relaySchema.build = .ok relayDescriptor := by rfl
  have made : relayKernel.Made relayDescriptor m := by
    have held : m.buffers[0]? = some ⟨.int, #[10, 20, 30]⟩ := rfl
    have held' : m.buffers[1]? = some ⟨.int, #[0, 0]⟩ := rfl
    let new := (Kernel.new relayDescriptor relayMemory).1
    have table : new.bind "table" 0 .int = .ok (new.setBinding 0 (.array 0)) := rfl
    have out : (new.setBinding 0 (.array 0)).bind "out" 1 .int = .ok relayKernel := rfl
    exact .bind (.bind (.new _) held table) held' out
  have complete : relayKernel.bound = .ok bound := rfl
  refine ⟨built, made, complete, by decide +kernel, ?_, ?_⟩
  · intro i f declared found
    match i with
    | 0 =>
      cases declared
      rfl
    | 1 | 2 | 3 | _ + 4 => cases found
  · exact (directions_are_sound built made complete ⟨[3], none, by decide⟩ ⟨1, 1, 1⟩ 0 40).2.1

end Launch

end GridKernel
