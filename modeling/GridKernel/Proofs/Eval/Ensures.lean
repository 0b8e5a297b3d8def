import GridKernel.Eval.Basic
import GridKernel.Proofs.Ensures

/-!
# Rules for the evaluator

The computations that only the evaluator has: traps, exhausted steps, operators and conditions.
The parts of it that several proofs follow have a name here: what comes after a round of a loop, and
what an atomic operation does once its slot is known.
-/

namespace GridKernel.Ensures

open Eval

variable {α : Type} {m : Machine} {done : α → Machine → Prop} {stopped : Stop → Machine → Prop}

theorem trapped (h : stopped (.trap t) m) : Ensures (trap t) m done stopped := h

theorem outOfSteps (h : stopped .exhausted m) : Ensures (exhausted : Comp α) m done stopped := h

theorem lifted (result : ∀ a, r = .ok a → done a m)
    (early : ∀ t, r = .error t → stopped (.trap t) m) : Ensures (orTrap r) m done stopped := by
  cases r with
  | ok a => exact result a rfl
  | error t => exact early t rfl

/-- A condition that was evaluated decides how to go on. -/
theorem decided (h : Ensures (f b) m done stopped) :
    Ensures (truth (.boolean b) >>= f) m done stopped := h

/-- A part of a method; what it declared is dropped after it. -/
theorem enclosed {x : Comp α}
    (h : Ensures x m (fun a m' => done a
      { m' with locals := m'.locals.drop (m'.locals.length - m.locals.length) }) stopped) :
    Ensures (Eval.enclosed x) m done stopped :=
  h.andThen fun _ _ ended => ended

/-- A body in a frame of its own, which is dropped after it. -/
theorem framed {x : Comp α} {params : Frame}
    (h : Ensures x { m with locals := params ++ m.locals, frame := m.locals.length }
      (fun a m' => done a { m' with locals := m'.suspended, frame := m.frame }) stopped) :
    Ensures (Eval.framed params x) m done stopped :=
  h.andThen fun _ _ ended => ended

end GridKernel.Ensures

namespace GridKernel.Eval

variable {α : Type} {x : Comp α} {m m' : Machine} {a : α}

/-- A part of a method that ended, before what it declared was dropped. -/
theorem enclosed_ok (h : enclosed x m = .ok a m') :
    ∃ m₁, x m = .ok a m₁ ∧
      m' = { m₁ with locals := m₁.locals.drop (m₁.locals.length - m.locals.length) } := by
  obtain ⟨_, m₁, ran, left⟩ := bind_ok (x := x) h
  cases left
  exact ⟨m₁, ran, rfl⟩

/-- A body that ended, in the frame that it had. -/
theorem framed_ok {params : Frame} (h : framed params x m = .ok a m') :
    ∃ m₁, x { m with locals := params ++ m.locals, frame := m.locals.length } = .ok a m₁ ∧
      leave m.frame m₁ = .ok () m' := by
  obtain ⟨_, m₁, ran, left⟩ := bind_ok (x := x) h
  cases left
  exact ⟨m₁, ran, rfl⟩

/-- What follows a round of a loop: it was left, or it goes on. -/
def afterRound {μ : Type → Type} [Monad μ] (again : μ Flow) : Flow → μ Flow
  | .broke => return .normal
  | .returned v => return .returned v
  | _ => again

/-- The number of the slot that an index stands for. -/
def slotNumber (name : String) (size : Nat) : Option Value → Comp Nat
  | some v => checkIndex name v size
  | none => pure 0

/-- What an atomic operation does once it has its slots and the number of one. -/
def performAt (op : AtomicOp) (name : String) (operands : List Int64) (id : SlotsId) (s : SlotArray)
    (i : Nat) : Comp Value :=
  match s.perform? i op operands with
  | none => trap (.noSlot name i)
  | some (after, result) => do
    modify fun m => { m with memory := m.memory.modifySlots id fun _ => after }
    pure (Value.ofInteger s.width.scalar result)

/-- An operation on bound slots: the slot is found, and the outcome replaces the slots. -/
theorem performAtomic_eq {id : SlotsId} (bound : binding c name m = .ok (k, .slots id) m)
    (held : m.memory.slots[id]? = some s) (op operands) :
    performAtomic c op name index operands m =
      (slotNumber name s.size index >>= performAt op name operands id s) m := by
  refine (bind_of_ok bound).trans ?_
  change (get >>= _ : Comp Value) m = _
  rw [get_bind, held]
  cases index <;> rfl

end GridKernel.Eval
