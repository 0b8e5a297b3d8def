import GridKernel.Proofs.Eval.Simulation
import GridKernel.Proofs.Memory.Shape

/-!
# What evaluation may write

Evaluation reaches memory through two operations only, the store into an element and the operation
on a slot, and each names its field in the program text. So a relation between memories that these
two keep for the fields that the text writes holds between the memory before an evaluation and the
one after it, whether it ends well or stops early.
-/

namespace GridKernel

open Ensures

/-- Every field that these expressions store into satisfies `written`. -/
def WritesOnly (written : String → Prop) (nodes : List Expr) : Prop :=
  ∀ e ∈ nodes, ∀ name, e.writtenField? = some name → written name

variable {written : String → Prop}

variable {e : Expr}

namespace Eval

/-- A relation between memories that is kept where the fields in `written` are written. -/
structure Framed (c : Context) (written : String → Prop) (R : Memory → Memory → Prop) : Prop where
  refl : ∀ m, R m m
  trans : ∀ {m₁ m₂ m₃}, R m₁ m₂ → R m₂ m₃ → R m₁ m₃
  store : ∀ {name i id}, written name → c.descriptor.fieldIndex? name = some i →
    c.bound[i]? = some (.array id) → ∀ m k v, R m (m.modifyBuffer id (·.store k v))
  perform : ∀ {name i id op m s k operands after result}, (op.writes = true → written name) →
    c.descriptor.fieldIndex? name = some i → c.bound[i]? = some (.slots id) →
    m.slots[id]? = some s → s.perform? k op operands = some (after, result) →
    R m (m.modifySlots id fun _ => after)

/-- However the computation ends, the memory before and after it are related. -/
def Moves {α : Type} (R : Memory → Memory → Prop) (x : Comp α) : Prop :=
  Goes (fun m m' => R m.memory m'.memory) (fun m m' => R m.memory m'.memory) x

namespace Framed

variable {c : Context} {written : String → Prop} {R : Memory → Memory → Prop}
  (h : Framed c written R)
include h

theorem sequenced : Sequenced c c 0 fun _ x => Moves R x :=
  Path.sequenced ⟨fun m => h.refl m.memory, h.trans, fun m => h.refl m.memory, h.trans⟩

/-- A store into a location of a field that may be written. -/
theorem writes_location {l : Location} (may : ∀ array i, l = .element array i → written array)
    (v : Value) : Moves R (writeLocation c v l) := by
  intro m
  cases l with
  | var name =>
    refine fromState ?_
    cases assignLocal name v m.current with
    | none => exact trapped (h.refl m.memory)
    | some current => exact modified (h.refl m.memory)
  | field i name => exact modified (h.refl m.memory)
  | element array i =>
    refine (writeElement_stores c array m i v).imp ?_ ?_
    · rintro _ m' ⟨id, k, index, bound, rfl⟩
      exact h.store (may array i rfl) index bound _ _ _
    · rintro _ m' ⟨-, rfl⟩
      exact h.refl _

theorem performs {op : AtomicOp} {name : String} (may : op.writes = true → written name)
    (index : Option Value) (operands : List Int64) :
    Moves R (performAtomic c op name index operands) := by
  refine fun m => (performAtomic_replaces c name m op index operands).imp ?_ ?_
  · rintro _ m' ⟨id, k, s, i, after, result, found, bound, held, performed, rfl⟩
    exact h.perform may found bound held performed
  · rintro _ m' ⟨-, rfl⟩
    exact h.refl _

omit h in
/-- A method whose text writes what may be written. -/
theorem enters {m : Method} (only : WritesOnly written (Stmt.allNodes m.body)) :
    Enters (fun (_ : Unit) e => ∀ name, e.writtenField? = some name → written name)
      (fun _ {_} _ x => Moves R x) () m :=
  ⟨(), only, fun inner _ _ => Ensures.framed (inner _)⟩

/-- A store or an operation writes the field that it names. -/
theorem simulates
    (methods : ∀ m ∈ c.descriptor.methods, WritesOnly written (Stmt.allNodes m.body)) :
    Simulates c c 0 (fun (_ : Unit) e => ∀ name, e.writtenField? = some name → written name)
      (fun _ {_} _ x => Moves R x) (fun _ {_} _ x => Moves R x) where
  descriptor := rfl
  exprs _ := h.sequenced
  stmts _ := h.sequenced
  widen went := went
  write {_ e p l} v may stores located := by
    refine h.writes_location (fun array i found => may array ?_) v
    subst found
    cases p with
    | var | field => cases located
    | element array' index =>
      obtain rfl : array = array' := located
      cases e <;> cases stores <;> rfl
  perform {_ op slot args} index operands may :=
    h.performs (fun writes => may slot.field (if_pos writes)) index operands
  declare _ _ _ m := modified (h.refl m.memory)
  enclosed inner m := Ensures.enclosed (inner m)
  callee _ found := enters (methods _ (List.mem_of_find?_eq_some found))

end Framed

/-- A run of the entry point, however it ends. -/
theorem run_moves (f : Framed c written R)
    (methods : ∀ m ∈ c.descriptor.methods, WritesOnly written (Stmt.allNodes m.body))
    (steps memory) : R memory (run c steps memory).1 := by
  have moved := ((f.simulates methods).alike steps).invocation
    (Framed.enters (methods _ List.mem_cons_self)) [] { memory := memory }
  unfold Ensures at moved
  unfold run
  cases ended : invoke c steps c.descriptor.main [] { memory := memory } with
  | ok _ m | error stop m =>
    rw [ended] at moved
    exact moved

/-! ## The shape of memory -/

/-- Evaluation keeps the shape of memory, whether it ends well or stops early. -/
theorem keeps_framed (c) : Framed c (fun _ => True) Memory.Keeps where
  refl := .refl
  trans := .trans
  store _ _ _ m k v := m.store_keeps _ k v
  perform _ _ _ held performed := Memory.perform_keeps held performed

theorem run_keeps (c steps) (m : Memory) : m.Keeps (run c steps m).1 :=
  run_moves (keeps_framed c) (fun _ _ _ _ _ _ => trivial) steps m

theorem keeps_simulates (c : Context) :
    Simulates c c 0 (fun (_ : Unit) e => ∀ name, e.writtenField? = some name → True)
      (fun _ {_} _ x => Moves Memory.Keeps x) (fun _ {_} _ x => Moves Memory.Keeps x) :=
  (keeps_framed c).simulates fun _ _ _ _ _ _ => trivial

theorem eval_keeps (ended : eval c n e m = .ok v m') : m.memory.Keeps m'.memory :=
  (((keeps_simulates c).alike n).expr (i := ()) (fun _ _ _ _ => trivial) m).of_ok ended

theorem resolve_keeps (ended : resolve c n p m = .ok l m') : m.memory.Keeps m'.memory :=
  (((keeps_simulates c).alike n).place (i := ()) (fun _ _ _ _ => trivial) m).of_ok ended

end Eval

end GridKernel
