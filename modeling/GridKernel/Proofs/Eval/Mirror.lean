import GridKernel.Proofs.Eval.Simulation
import Mathlib.Data.List.Forall2

/-!
# What an evaluation depends on

Two work-items of one kernel run beside each other, each on a memory of its own, and through fields
that may be bound to different buffers and slots. As long as the cells that the first one accesses
are allowed, and the memories look the same there, both do the same: they end alike, with the same
locals, and their memories are still related.

With the equality for a relation and everything allowed this says that writing down the moments
changes nothing. An evaluation that ends before its steps are used up ends the same way if it is
given more of them, so their number bounds an evaluation but has no part in its meaning.
-/

namespace GridKernel.Eval

/-- The bindings show the same through related memories, in the cells that may be accessed. -/
inductive Mirrored (allowed : Access → Prop) (R : Memory → Memory → Prop) : Bound → Bound → Prop
  | scalar (v : Value) : Mirrored allowed R (.scalar v) (.scalar v)
  | array {id id' : BufferId}
      (shape : ∀ {m m'}, R m m' →
        m'.buffers[id']?.map Buffer.shape = m.buffers[id]?.map Buffer.shape)
      (read : ∀ {m m' i}, R m m' → allowed (.read (.element id i)) →
        m'.word? (.element id' i) = m.word? (.element id i))
      (write : ∀ {m m' i v}, R m m' → allowed (.write (.element id i)) →
        R (m.modifyBuffer id (·.store i v)) (m'.modifyBuffer id' (·.store i v))) :
      Mirrored allowed R (.array id) (.array id')
  | slots {id id' : SlotsId}
      (shape : ∀ {m m'}, R m m' →
        m'.slots[id']?.map SlotArray.shape = m.slots[id]?.map SlotArray.shape)
      (read : ∀ {m m' i}, R m m' → allowed (.read (.slot id i)) →
        m'.word? (.slot id' i) = m.word? (.slot id i))
      (write : ∀ {m m' i v}, R m m' → allowed (.write (.slot id i)) →
        R (m.modifySlots id (·.put i v)) (m'.modifySlots id' (·.put i v))) :
      Mirrored allowed R (.slots id) (.slots id')

/-- The same kernel and work-item, and bindings that show the same. -/
structure Mirror (c c' : Context) (allowed : Access → Prop) (R : Memory → Memory → Prop) :
    Prop where
  descriptor : c'.descriptor = c.descriptor
  item : c'.item = c.item
  bound : List.Forall₂ (Mirrored allowed R) c.bound c'.bound

/-- Machines that differ in their memory at most. -/
structure Twin (R : Memory → Memory → Prop) (m m' : Machine) : Prop where
  scalars : m'.scalars = m.scalars
  locals : m'.locals = m.locals
  frame : m'.frame = m.frame
  memory : R m.memory m'.memory

theorem Twin.eq (twin : Twin Eq m m') : m' = m := by
  obtain ⟨scalars, locals, frame, memory⟩ := twin
  cases m
  cases m'
  simp_all

theorem Twin.current (twin : Twin R m m') : m'.current = m.current := by
  rw [Machine.current, Machine.current, twin.locals, twin.frame]

theorem Twin.suspended (twin : Twin R m m') : m'.suspended = m.suspended := by
  rw [Machine.suspended, Machine.suspended, twin.locals, twin.frame]

/-- Both computations end well with the same result, or early for the same reason. -/
inductive Match (R : Memory → Memory → Prop) {α : Type} :
    EStateM.Result Stop Machine α → EStateM.Result Stop Machine α → Prop
  | ok {a : α} {m m' : Machine} (twin : Twin R m m') : Match R (.ok a m) (.ok a m')
  | error {stop : Stop} {m m' : Machine} (twin : Twin R m m') :
      Match R (.error stop m) (.error stop m')

namespace Match

variable {R : Memory → Memory → Prop} {α β : Type} {m m' : Machine}

theorem looked (h : Match R (f m m) (g m' m')) :
    Match R ((get >>= f : Comp α) m) ((get >>= g : Comp α) m') := h

/-- What a computation that changes nothing gives may differ. -/
theorem known (h : Match R (f a m) (g a' m')) :
    Match R (((pure a : Comp β) >>= f) m) (((pure a' : Comp β) >>= g) m') := h

end Match

/-- From machines that are twins both computations end alike. -/
def Agree (R : Memory → Memory → Prop) {α : Type} (x y : Comp α) : Prop :=
  ∀ ⦃m m'⦄, Twin R m m' → Match R (x m) (y m')

namespace Agree

variable {R : Memory → Memory → Prop} {α β : Type}

theorem ret (a : α) : Agree R (pure a : Comp α) (pure a) := fun _ _ twin => .ok twin

theorem stops (t) : Agree R (trap t : Comp α) (trap t) := fun _ _ twin => .error twin

theorem outOfSteps : Agree R (exhausted : Comp α) exhausted := fun _ _ twin => .error twin

theorem changes (h : ∀ m m', Twin R m m' → Twin R (f m) (f m')) :
    Agree R (modify f : Comp Unit) (modify f) := fun _ _ twin => .ok (h _ _ twin)

theorem lifts (r : Except Trap α) : Agree R (orTrap r) (orTrap r) := by
  cases r with
  | ok a => exact ret a
  | error t => exact stops t

theorem tests (v) : Agree R (truth v) (truth v) := by
  cases v with
  | boolean b => exact ret b
  | _ => exact stops _

theorem operands (op v) : Agree R (operand op v) (operand op v) := by
  unfold operand
  split
  · exact ret _
  · exact stops _

theorem checks (name v size) : Agree R (checkIndex name v size) (checkIndex name v size) := by
  unfold checkIndex
  dsimp only
  split
  · exact ret _
  · exact stops _

/-! ## Locals -/

theorem reads_local (name) : Agree R (readLocal name) (readLocal name) := by
  refine fun m m' twin => Match.looked ?_
  rw [twin.current]
  cases m.current.lookup name with
  | none => exact stops _ twin
  | some v => exact ret v twin

theorem writes_local (name v) : Agree R (writeLocal name v) (writeLocal name v) := by
  refine fun m m' twin => Match.looked ?_
  rw [twin.current]
  cases assignLocal name v m.current with
  | none => exact stops _ twin
  | some f => exact .ok ⟨twin.scalars, congrArg (f ++ ·) twin.suspended, twin.frame, twin.memory⟩

theorem declares (name v) : Agree R (declareLocal name v) (declareLocal name v) :=
  changes fun _ _ twin =>
    ⟨twin.scalars, congrArg ((name, v) :: ·) twin.locals, twin.frame, twin.memory⟩

theorem truncates (size) : Agree R (truncate size) (truncate size) := by
  refine changes fun m m' twin => ⟨twin.scalars, ?_, twin.frame, twin.memory⟩
  dsimp only
  rw [twin.locals]

theorem counts : Agree R localCount localCount := by
  refine fun m m' twin => Match.looked ?_
  rw [twin.locals]
  exact ret _ twin

theorem marks : Agree R marker marker := by
  refine fun m m' twin => Match.looked ?_
  rw [twin.frame]
  exact ret _ twin

theorem enters (params) : Agree R (enter params) (enter params) :=
  changes fun _ _ twin => ⟨twin.scalars, congrArg (params ++ ·) twin.locals,
    congrArg List.length twin.locals, twin.memory⟩

theorem leaves (saved) : Agree R (leave saved) (leave saved) := by
  refine changes fun m m' twin => ⟨twin.scalars, ?_, rfl, twin.memory⟩
  dsimp only
  rw [twin.locals, twin.frame]

theorem writes_scalar (i v) : Agree R (writeScalar i v) (writeScalar i v) := by
  refine changes fun m m' twin => ⟨?_, twin.locals, twin.frame, twin.memory⟩
  dsimp only
  rw [twin.scalars]

end Agree

/-! ## Fields -/

theorem shape_cases (same : held'.map shape = held.map shape) :
    (held = none ∧ held' = none) ∨
      ∃ b b', held = some b ∧ held' = some b' ∧ shape b' = shape b := by
  cases held with
  | none => exact .inl ⟨rfl, Option.map_eq_none_iff.mp same⟩
  | some b =>
    obtain ⟨b', held', shapes⟩ := Option.map_eq_some_iff.mp same
    exact .inr ⟨b, b', rfl, held', shapes⟩

namespace Mirror

variable {c c' : Context} {allowed : Access → Prop} {R : Memory → Memory → Prop}

section

variable (h : Mirror c c' allowed R)
include h

/-- A name stands for the same field in both contexts. -/
theorem binding_cases (name) :
    (binding c name = trap (.unknownField name) ∧ binding c' name = trap (.unknownField name)) ∨
      ∃ i b b', binding c name = pure (i, b) ∧ binding c' name = pure (i, b') ∧
        Watched.bound? c name = some b ∧ Mirrored allowed R b b' := by
  unfold binding Watched.bound?
  rw [h.descriptor]
  cases c.descriptor.fieldIndex? name with
  | none => exact .inl ⟨rfl, rfl⟩
  | some i =>
    dsimp only [Option.bind_some]
    cases found : c.bound[i]? with
    | none =>
      have absent : c'.bound[i]? = none := by
        rw [List.getElem?_eq_none_iff] at found ⊢
        exact h.bound.length_eq ▸ found
      rw [absent]
      exact .inl ⟨rfl, rfl⟩
    | some b =>
      obtain ⟨inBounds, rfl⟩ := List.getElem?_eq_some_iff.mp found
      have inBounds' : i < c'.bound.length := h.bound.length_eq ▸ inBounds
      rw [List.getElem?_eq_getElem inBounds']
      exact .inr ⟨i, _, _, rfl, rfl, rfl, h.bound.get inBounds inBounds'⟩

/-- A field is found in both contexts, or in none. -/
theorem binds {f g : Nat × Bound → Comp α} (name) (twin : Twin R m m')
    (next : ∀ i b b', Watched.bound? c name = some b → Mirrored allowed R b b' →
      Match R (f (i, b) m) (g (i, b') m')) :
    Match R ((binding c name >>= f) m) ((binding c' name >>= g) m') := by
  rcases h.binding_cases name with ⟨none, none'⟩ | ⟨i, b, b', found, found', bound, mirrored⟩
  · rw [none, none']
    exact Agree.stops _ twin
  · rw [found, found']
    exact next i b b' bound mirrored

theorem arrays {f g : BufferId → Comp α} (name) (twin : Twin R m m')
    (next : ∀ id id', Watched.bound? c name = some (.array id) →
      Mirrored allowed R (.array id) (.array id') → Match R (f id m) (g id' m')) :
    Match R ((arrayOf c name >>= f) m) ((arrayOf c' name >>= g) m') := by
  unfold arrayOf
  rw [bind_assoc, bind_assoc]
  refine h.binds name twin fun i b b' bound mirrored => ?_
  cases mirrored with
  | scalar v => exact Agree.stops _ twin
  | array shape read write => exact next _ _ bound (.array shape read write)
  | slots => exact Agree.stops _ twin

theorem reads_scalar (name) : Agree R (readScalar c name) (readScalar c' name) := by
  refine fun m m' twin => h.binds name twin fun i b b' _ mirrored => Match.looked ?_
  rw [twin.scalars]
  cases m.scalars.lookup i with
  | some v => exact Agree.ret v twin
  | none =>
    cases mirrored with
    | scalar v => exact Agree.ret v twin
    | array | slots => exact Agree.stops _ twin

theorem finds_field (name) :
    Agree R (do return Location.field (← binding c name).1 name)
      (do return Location.field (← binding c' name).1 name) :=
  fun _ _ twin => h.binds name twin fun _ _ _ _ _ => Agree.ret _ twin

theorem measures (name) : Agree R (arraySize c name) (arraySize c' name) := by
  refine fun m m' twin => h.arrays name twin fun id id' _ mirrored => Match.looked ?_
  cases mirrored with
  | array shape _ _ =>
    rcases shape_cases (shape twin.memory) with ⟨gone, gone'⟩ | ⟨b, b', held, held', same⟩
    · rw [gone, gone']
      exact Agree.stops _ twin
    · have size : b'.size = b.size := congrArg Prod.snd same
      rw [held, held']
      dsimp only
      rw [size]
      exact Agree.ret _ twin

theorem reads_length (name) : Agree R (lengthOf c name) (lengthOf c' name) := by
  refine fun m m' twin => h.binds name twin fun i b b' _ mirrored => Match.looked ?_
  cases mirrored with
  | scalar v => exact Agree.stops _ twin
  | array shape _ _ =>
    dsimp only
    rcases shape_cases (shape twin.memory) with ⟨gone, gone'⟩ | ⟨b, b', held, held', same⟩
    · rw [gone, gone']
      exact Agree.stops _ twin
    · have size : b'.size = b.size := congrArg Prod.snd same
      rw [held, held']
      dsimp only
      rw [size]
      exact Agree.ret _ twin
  | slots shape _ _ =>
    dsimp only
    rcases shape_cases (shape twin.memory) with ⟨gone, gone'⟩ | ⟨s, s', held, held', same⟩
    · rw [gone, gone']
      exact Agree.stops _ twin
    · have size : s'.size = s.size := congrArg (·.2.2) same
      rw [held, held']
      dsimp only
      rw [size]
      exact Agree.ret _ twin

theorem builtins (func args) : Agree R (builtinValue c func args) (builtinValue c' func args) := by
  unfold builtinValue
  rw [h.item]
  split
  · exact Agree.ret _
  · split
    · exact Agree.ret _
    · exact Agree.lifts _

end

end Mirror

/-! ## Computations that tell their moments -/

/-- From machines that are twins both computations end alike, if the first one accesses only what
is allowed. If the second one has `k` steps more, the first may run out of them. -/
def Mirrors (allowed : Access → Prop) (R : Memory → Memory → Prop) (k : Nat) {α : Type}
    (x : Watched α) (y : Comp α) : Prop :=
  ∀ ⦃active m m'⦄, Twin R m m' → (∀ s ∈ (x active m).2, ∀ a ∈ s.accesses, allowed a) →
    Match R (x active m).1 (y m') ∨ k ≠ 0 ∧ ∃ last, (x active m).1 = .error .exhausted last

namespace Mirrors

variable {allowed : Access → Prop} {R : Memory → Memory → Prop} {k : Nat} {α β : Type}

theorem observed {accesses : Machine → List Access} {x y : Comp α}
    (h : ∀ ⦃m m'⦄, Twin R m m' → (∀ a ∈ accesses m, allowed a) → Match R (x m) (y m')) :
    Mirrors allowed R k (Watched.observe accesses x) y :=
  fun _ _ _ twin may => .inl (h twin (may _ List.mem_cons_self))

theorem lifted (h : Agree R x y) : Mirrors allowed R k (Watched.lift x) y :=
  observed fun _ _ twin _ => h twin

theorem andThen (first : Mirrors allowed R k x y)
    (next : ∀ a, (∃ m m', y m = .ok a m') → Mirrors allowed R k (f a) (g a)) :
    Mirrors allowed R k (x >>= f) (y >>= g) := by
  intro active m m' twin accesses
  change ∀ s ∈ (Watched.bind x f active m).2, ∀ a ∈ s.accesses, allowed a at accesses
  change Match R (Watched.bind x f active m).1 (EStateM.bind y g m') ∨ k ≠ 0 ∧
    ∃ last, (Watched.bind x f active m).1 = .error .exhausted last
  unfold Watched.bind at accesses ⊢
  unfold EStateM.bind
  rcases watched : x active m with ⟨ending, before⟩
  have firstAllowed : ∀ s ∈ (x active m).2, ∀ a ∈ s.accesses, allowed a := by
    intro s seen
    rw [watched] at seen accesses
    cases ending with
    | ok => exact accesses s (List.mem_append_left _ seen)
    | error => exact accesses s seen
  have went := first twin firstAllowed
  rw [watched] at went accesses
  rcases went with matched | ⟨more, last, rfl⟩
  · cases ended : y m' with
    | error stop _ =>
      rw [ended] at matched
      cases matched with
      | error twin => exact .inl (.error twin)
    | ok a _ =>
      rw [ended] at matched
      cases matched with
      | ok twin =>
        exact next a ⟨_, _, ended⟩ twin fun s seen => accesses s (List.mem_append_right _ seen)
  · exact .inr ⟨more, last, rfl⟩

theorem deeper (h : Mirrors allowed R k x y) :
    Mirrors allowed R k (fun active => x (active + 1)) y :=
  fun _ _ _ twin accesses => h twin accesses

end Mirrors

namespace Mirror

variable {c c' : Context} {allowed : Access → Prop} {R : Memory → Memory → Prop}

theorem reads_element (h : Mirror c c' allowed R) (name i) :
    Mirrors allowed R k (Watched.readElement c name i) (readElement c' name i) := by
  refine .observed fun m m' twin accesses => h.arrays name twin fun id id' bound mirrored =>
    Match.looked ?_
  have may : allowed (.read (.element id i)) := accesses _ (by simp [Watched.elementCells, bound])
  cases mirrored with
  | array shape read _ =>
    rcases shape_cases (shape twin.memory) with ⟨gone, gone'⟩ | ⟨b, b', held, held', same⟩
    · rw [gone, gone']
      exact Agree.stops _ twin
    · have size : b'.size = b.size := congrArg Prod.snd same
      have type : b'.type = b.type := congrArg Prod.fst same
      have cell : b'.cells[i]? = b.cells[i]? := by
        simpa [Memory.word?, held, held'] using read twin.memory may
      have loaded : b'.load? i = b.load? i := by rw [Buffer.load?, Buffer.load?, type, cell]
      rw [held, held']
      dsimp only
      rw [loaded, size]
      cases b.load? i with
      | none => exact Agree.stops _ twin
      | some v => exact Agree.ret v twin

theorem writes_element (h : Mirror c c' allowed R) (name i v) :
    Mirrors allowed R k (Watched.writeElement c name i v) (writeElement c' name i v) := by
  refine .observed fun m m' twin accesses => h.arrays name twin fun id id' bound mirrored => ?_
  have may : allowed (.write (.element id i)) := accesses _ (by simp [Watched.elementCells, bound])
  cases mirrored with
  | array _ _ write => exact .ok ⟨twin.scalars, twin.locals, twin.frame, write twin.memory may⟩

/-- The operation does the same on slots that hold the same at its index. -/
theorem performs_at {operands : List Int64} {id id' : SlotsId}
    (mirrored : Mirrored allowed R (.slots id) (.slots id')) (twin : Twin R m m')
    (held : m.memory.slots[id]? = some s) (held' : m'.memory.slots[id']? = some s')
    (accesses : ∀ a ∈ Watched.slotAccesses op operands id i s, allowed a) :
    Match R (performAt op name operands id s i m) (performAt op name operands id' s' i m') := by
  cases mirrored with
  | slots shape read write =>
  have same : s'.shape = s.shape := by simpa [held, held'] using shape twin.memory
  have width : s'.width = s.width := congrArg (·.1) same
  have size : s'.size = s.size := congrArg (·.2.2) same
  unfold performAt
  rw [SlotArray.perform?_eq, SlotArray.perform?_eq]
  cases found : s.get? i with
  | none =>
    have found' : s'.get? i = none := by
      rw [SlotArray.get?, Array.getElem?_eq_none_iff] at found ⊢
      exact (congrArg (· ≤ i) size).mpr found
    rw [found']
    exact Agree.stops _ twin
  | some current =>
    rw [Watched.slotAccesses, found] at accesses
    have found' : s'.get? i = some current := by
      rw [Memory.slot_eq_of_word held held' (read twin.memory (accesses _ List.mem_cons_self)),
        found]
    rw [found', width]
    refine .ok ⟨twin.scalars, twin.locals, twin.frame, ?_⟩
    cases next : op.next current operands s.width with
    | none =>
      change R (m.memory.modifySlots id fun _ => s) (m'.memory.modifySlots id' fun _ => s')
      rw [Memory.modifySlots_self held, Memory.modifySlots_self held']
      exact twin.memory
    | some v =>
      change R (m.memory.modifySlots id fun _ => s.put i v)
        (m'.memory.modifySlots id' fun _ => s'.put i v)
      rw [Memory.modifySlots_of_held held (·.put i v), Memory.modifySlots_of_held held' (·.put i v)]
      exact write twin.memory (accesses _ (by simp [next]))

theorem performs (h : Mirror c c' allowed R) (op name index operands) :
    Mirrors allowed R k (Watched.performAtomic c op name index operands)
      (performAtomic c' op name index operands) := by
  refine .observed fun m m' twin accesses => ?_
  rcases h.binding_cases name with ⟨none, none'⟩ | ⟨k, b, b', found, found', bound, mirrored⟩
  · unfold performAtomic
    rw [none, none']
    exact Agree.stops _ twin
  cases mirrored with
  | scalar v | array =>
    unfold performAtomic
    rw [found, found']
    exact Agree.stops _ twin
  | @slots id id' shape read write =>
    rcases shape_cases (shape twin.memory) with ⟨gone, gone'⟩ | ⟨s, s', held, held', same⟩
    · unfold performAtomic
      rw [found, found']
      refine Match.known (Match.looked ?_)
      rw [gone, gone']
      exact Agree.stops _ twin
    have size : s'.size = s.size := congrArg (·.2.2) same
    rw [performAtomic_eq (congrFun found m) held, performAtomic_eq (congrFun found' m') held', size]
    rw [Watched.atomicAccesses, bound] at accesses
    simp only [held] at accesses
    cases index with
    | none => exact performs_at (.slots shape read write) twin held held' accesses
    | some v =>
      dsimp only [Watched.slotIndex?, slotNumber] at accesses ⊢
      unfold checkIndex
      dsimp only
      split
      · next inBounds =>
        rw [if_pos inBounds] at accesses
        exact performs_at (.slots shape read write) twin held held' accesses
      · exact Agree.stops _ twin

theorem reads_location (h : Mirror c c' allowed R) (t) :
    Mirrors allowed R k (Watched.readLocation c t) (readLocation c' t) := by
  cases t with
  | var name => exact .lifted (Agree.reads_local name)
  | field i name => exact .lifted (h.reads_scalar name)
  | element array i => exact h.reads_element array i

theorem writes_location (h : Mirror c c' allowed R) (v t) :
    Mirrors allowed R k (Watched.writeLocation c v t) (writeLocation c' v t) := by
  cases t with
  | var name => exact .lifted (Agree.writes_local name v)
  | field i name => exact .lifted (Agree.writes_scalar i v)
  | element array i => exact h.writes_element array i v

end Mirror

/-! ## Evaluation -/

section

open Mirrors Agree

theorem Mirror.asks (mirror : Mirror c c' allowed R) (q : Question c c' w x) :
    Mirrors allowed R k w x := by
  cases q with
  | ret a => exact lifted (Agree.ret a)
  | stops t => exact lifted (stops t)
  | lifts r => exact lifted (lifts r)
  | tests v => exact lifted (tests v)
  | operands op v => exact lifted (operands op v)
  | checks array v size => exact lifted (checks array v size)
  | reads l => exact mirror.reads_location l
  | finds name => exact lifted (mirror.finds_field name)
  | measures array => exact lifted (mirror.measures array)
  | lengths array => exact lifted (mirror.reads_length array)
  | builtins func args => exact lifted (mirror.builtins func args)

theorem Mirror.sequenced (mirror : Mirror c c' allowed R) (k) :
    Sequenced c c' k (Mirrors allowed R k) where
  ask := mirror.asks
  andThenOf := andThen
  outOfSteps {_ y} spent := by
    cases k with
    | zero =>
      rw [spent rfl]
      exact lifted outOfSteps
    | succ k => exact fun _ m _ _ _ => .inr ⟨k.succ_ne_zero, m, rfl⟩

/-- Any method may be invoked. -/
theorem mirrors_enter (k method) :
    Enters (fun _ _ => True) (fun _ => Mirrors allowed R k) () method :=
  ⟨(), fun _ _ => trivial, fun inner _ =>
    andThen (lifted marks) fun saved _ => andThen (lifted (enters _)) fun _ _ =>
      andThen inner.deeper fun flow _ => andThen (lifted (leaves saved)) fun _ _ =>
        lifted (Agree.ret flow)⟩

/-- Evaluations of any number of steps and of `k` more, in two contexts, end alike. -/
theorem Mirror.simulates (mirror : Mirror c c' allowed R) (k) :
    Simulates c c' k (fun (_ : Unit) _ => True) (fun _ => Mirrors allowed R k)
      fun _ => Mirrors allowed R k where
  descriptor := mirror.descriptor
  exprs _ := mirror.sequenced k
  stmts _ := mirror.sequenced k
  widen went := went
  write v _ _ _ := mirror.writes_location v _
  perform index operands _ := mirror.performs _ _ index operands
  declare _ name v := lifted (declares name v)
  enclosed inner := andThen (lifted counts) fun size _ => andThen inner fun flow _ =>
    andThen (lifted (truncates size)) fun _ _ => lifted (Agree.ret flow)
  callee _ _ := mirrors_enter k _

end

/-! ## Runs -/

theorem Mirrored.self (b) : Mirrored (fun _ => True) Eq b b := by
  cases b with
  | scalar v => exact .scalar v
  | array id => exact .array (fun | rfl => rfl) (fun | rfl, _ => rfl) (fun | rfl, _ => rfl)
  | slots id => exact .slots (fun | rfl => rfl) (fun | rfl, _ => rfl) (fun | rfl, _ => rfl)

theorem Mirror.self (c) : Mirror c c (fun _ => True) Eq :=
  ⟨rfl, rfl, List.forall₂_same.mpr fun b _ => .self b⟩

/-- An invocation and its mirror image. -/
theorem Mirror.invocation (mirror : Mirror c c' allowed R) (k n method args) :
    Mirrors allowed R k (Watched.invoke c n method args) (invoke c' (k + n) method args) :=
  ((mirror.simulates k).simulated n).invocation (mirrors_enter k method) args

/-- Writing down the moments changes nothing, and more steps change nothing unless they run out. -/
theorem Watched.invoke_more (c k n method args active m) :
    Eval.invoke c (k + n) method args m = (Watched.invoke c n method args active m).1 ∨
      k ≠ 0 ∧ ∃ last, (Watched.invoke c n method args active m).1 = .error .exhausted last := by
  have invoked := (Mirror.self c).invocation k n method args
  have went := @invoked active m m ⟨rfl, rfl, rfl, rfl⟩ fun _ _ _ _ => trivial
  refine went.imp_left fun matched => ?_
  generalize (Watched.invoke c n method args active m).1 = ending at matched
  generalize Eval.invoke c (k + n) method args m = ending' at matched
  cases matched with
  | ok twin | error twin => rw [twin.eq]

theorem Watched.invoke_fst (c n method args active m) :
    (Watched.invoke c n method args active m).1 = Eval.invoke c n method args m := by
  have same := (Watched.invoke_more c 0 n method args active m).resolve_right fun more => more.1 rfl
  rwa [Nat.zero_add, eq_comm] at same

/-- An invocation that does not run out of steps ends the same way with more of them. -/
theorem invoke_settled (enough : n ≤ steps)
    (ends : ∀ last, invoke c n method args m ≠ .error .exhausted last) :
    invoke c steps method args m = invoke c n method args m := by
  obtain ⟨k, rfl⟩ := Nat.exists_eq_add_of_le' enough
  have went := Watched.invoke_more c k n method args 0 m
  rw [Watched.invoke_fst] at went
  exact went.resolve_right fun ⟨_, last, spent⟩ => ends last spent

/-- An invocation that ends keeps its outcome with more steps. -/
theorem invoke_more (enough : n ≤ steps) (ended : invoke c n method args m = .ok result m') :
    invoke c steps method args m = .ok result m' := by
  rw [invoke_settled enough (by simp [ended]), ended]

/-- A work-item that accesses only what is allowed ends as its mirror image does. -/
theorem Mirror.run (mirror : Mirror c c' allowed R) (related : R m m')
    (accesses : ∀ a ∈ trace c steps m, allowed a) :
    R (run c steps m).1 (run c' steps m').1 ∧ (run c' steps m').2 = (run c steps m).2 := by
  have matched := (mirror.invocation 0 steps c.descriptor.main []
    (⟨rfl, rfl, rfl, related⟩ : Twin R { memory := m } { memory := m' })
    fun s seen a accessed => accesses a (List.mem_flatMap.mpr ⟨s, seen, accessed⟩)).resolve_right
    fun more => more.1 rfl
  rw [Watched.invoke_fst, Nat.zero_add] at matched
  unfold Eval.run
  rw [mirror.descriptor]
  generalize invoke c steps c.descriptor.main [] { memory := m } = ending at matched
  generalize invoke c' steps c.descriptor.main [] { memory := m' } = ending' at matched
  cases matched with
  | ok twin | error twin => exact ⟨twin.memory, rfl⟩

end GridKernel.Eval
