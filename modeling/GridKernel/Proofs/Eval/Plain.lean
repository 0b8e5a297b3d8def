import GridKernel.Proofs.Eval.Ensures

/-!
# Operations of the machine

Most operations only look at the machine. Those that change memory name the field whose buffer or
slots they replace.
-/

namespace GridKernel.Eval

/-- However the computation ends, the machine is as it was, and it is not for want of steps. -/
def Reads {α : Type} (x : Comp α) : Prop :=
  ∀ m, Ensures x m (fun _ m' => m' = m) fun stop m' => stop ≠ .exhausted ∧ m' = m

variable {α β : Type}

namespace Reads

theorem ret (a : α) : Reads (pure a : Comp α) := fun _ => rfl

theorem stops (t) : Reads (trap t : Comp α) := fun _ => ⟨Stop.noConfusion, rfl⟩

theorem looks : Reads (get : Comp Machine) := fun _ => rfl

protected theorem andThen (first : Reads x) (next : ∀ a, Reads (f a)) : Reads (x >>= f) := by
  intro m
  refine Ensures.andThen (first m) ?_
  rintro a _ rfl
  exact next a _

theorem lifts (r : Except Trap α) : Reads (orTrap r) := by
  cases r with
  | ok a => exact ret a
  | error t => exact stops t

theorem tests (v) : Reads (truth v) := by
  cases v with
  | boolean b => exact ret b
  | _ => exact stops _

theorem operands (op v) : Reads (operand op v) := by
  unfold operand
  split
  · exact ret _
  · exact stops _

theorem checks (name index size) : Reads (checkIndex name index size) := by
  unfold checkIndex
  dsimp only
  split
  · exact ret _
  · exact stops _

theorem reads_local (name) : Reads (readLocal name) := by
  refine Reads.andThen looks fun m => ?_
  split
  · exact ret _
  · exact stops _

theorem finds (c name) : Reads (binding c name) := by
  unfold binding
  split
  · exact stops _
  · split
    · exact ret _
    · exact stops _

theorem reads_scalar (c name) : Reads (readScalar c name) := by
  refine Reads.andThen (finds c name) fun found => .andThen looks fun m => ?_
  split
  · exact ret _
  · split
    · exact ret _
    · exact stops _

theorem finds_array (c name) : Reads (arrayOf c name) := by
  refine Reads.andThen (finds c name) fun found => ?_
  split
  · exact ret _
  · exact stops _

theorem measures (c name) : Reads (arraySize c name) := by
  refine Reads.andThen (finds_array c name) fun id => .andThen looks fun m => ?_
  split
  · exact ret _
  · exact stops _

theorem reads_element (c name i) : Reads (readElement c name i) := by
  refine Reads.andThen (finds_array c name) fun id => .andThen looks fun m => ?_
  split
  · split
    · exact ret _
    · exact stops _
  · exact stops _

theorem reads_length (c name) : Reads (lengthOf c name) := by
  refine Reads.andThen (finds c name) fun found => .andThen looks fun m => ?_
  obtain ⟨i, b⟩ := found
  cases b with
  | scalar v => exact stops _
  | array id | slots id =>
    dsimp only
    split
    · exact ret _
    · exact stops _

theorem reads_location (c l) : Reads (readLocation c l) := by
  cases l with
  | var name => exact reads_local name
  | field i name => exact reads_scalar c name
  | element array i => exact reads_element c array i

theorem builtins (c func args) : Reads (builtinValue c func args) := by
  unfold builtinValue
  split
  · exact ret _
  · split
    · exact ret _
    · exact lifts _

theorem state (h : Reads x) (ended : x m = .ok a m') : m' = m :=
  (h m).of_ok ended

end Reads

/-! ## Operations on memory -/

section

open Ensures

variable (c : Context) (name : String) (m : Machine)

/-- The binding that a name stands for. -/
theorem binding_finds :
    Ensures (binding c name) m (fun found m' => m' = m ∧
        c.descriptor.fieldIndex? name = some found.1 ∧ c.bound[found.1]? = some found.2)
      fun stop m' => stop ≠ .exhausted ∧ m' = m := by
  unfold binding
  split
  · exact trapped ⟨Stop.noConfusion, rfl⟩
  · rename_i i index
    split
    · rename_i b bound
      exact ret ⟨rfl, index, bound⟩
    · exact trapped ⟨Stop.noConfusion, rfl⟩

/-- A store puts an element into the buffer of the array. -/
theorem writeElement_stores (i v) :
    Ensures (writeElement c name i v) m (fun _ m' => ∃ id k,
        c.descriptor.fieldIndex? name = some k ∧ c.bound[k]? = some (.array id) ∧
          m' = { m with memory := m.memory.modifyBuffer id (·.store i v) })
      fun stop m' => stop ≠ .exhausted ∧ m' = m := by
  refine (binding_finds c name m).andThen ?_ |>.andThen fun id m' found => modified found
  rintro ⟨k, b⟩ m' ⟨rfl, index, bound⟩
  cases b with
  | scalar | slots => exact trapped ⟨Stop.noConfusion, rfl⟩
  | array id => exact ret ⟨id, k, index, bound, rfl⟩

/-- An operation has replaced the slots of the field. -/
def Replaces (op : AtomicOp) (operands : List Int64) (m' : Machine) : Prop :=
  ∃ id k s i after result, c.descriptor.fieldIndex? name = some k ∧ c.bound[k]? = some (.slots id) ∧
    m.memory.slots[id]? = some s ∧ s.perform? i op operands = some (after, result) ∧
    m' = { m with memory := m.memory.modifySlots id fun _ => after }

theorem performAtomic_replaces (op index operands) :
    Ensures (performAtomic c op name index operands) m (fun _ => Replaces c name m op operands)
      fun stop m' => stop ≠ .exhausted ∧ m' = m := by
  refine (binding_finds c name m).andThen ?_
  rintro ⟨k, b⟩ m ⟨rfl, found, bound⟩
  cases b with
  | scalar | array => exact trapped ⟨Stop.noConfusion, rfl⟩
  | slots id =>
    refine fromState ?_
    cases held : m.memory.slots[id]? with
    | none => exact trapped ⟨Stop.noConfusion, rfl⟩
    | some s =>
      have performed : ∀ i, Ensures (performAt op name operands id s i) m
          (fun _ => Replaces c name m op operands) fun stop m' => stop ≠ .exhausted ∧ m' = m := by
        intro i
        unfold performAt
        split
        · exact trapped ⟨Stop.noConfusion, rfl⟩
        · rename_i after result done
          exact changed (ret ⟨id, k, s, i, after, result, found, bound, held, done, rfl⟩)
      cases index with
      | none => exact performed 0
      | some v =>
        refine (Reads.checks name v s.size m).andThen ?_
        rintro i _ rfl
        exact performed i

end

end GridKernel.Eval
