import GridKernel.Proofs.Eval.Ensures
import GridKernel.Proofs.Memory.Cells
import GridKernel.Proofs.Memory.Images

/-!
# Slots as words of their width

A cell has 64 bits, and one of width `int` holds the sign extension of 32. On such a cell every
operation stores and returns the sign extensions of what it stores and returns on the words
themselves, where arithmetic wraps around and numbers are compared with their signs.
-/

namespace GridKernel

/-- What an operation stores and returns on words of `n` bits. -/
def AtomicOp.onWord {n : Nat} (op : AtomicOp) (cell a b : BitVec n) : BitVec n × BitVec n :=
  match op with
  | set => (a, a)
  | get => (cell, cell)
  | xchg => (a, cell)
  | add => (cell + a, cell)
  | sub => (cell - a, cell)
  | inc => (cell + 1, cell)
  | dec => (cell - 1, cell)
  | cmpXchg => (if cell = a then b else cell, cell)
  | min => (if a.slt cell then a else cell, cell)
  | max => (if cell.slt a then a else cell, cell)
  | and => (cell &&& a, cell)
  | or => (cell ||| a, cell)
  | xor => (cell ^^^ a, cell)

namespace SlotWidth

variable (w : SlotWidth)

/-- The word in the low bits of a cell. -/
def low (v : Int64) : BitVec w.bits := v.toBitVec.setWidth w.bits

/-- The cell that holds a word with its sign. -/
def extend (x : BitVec w.bits) : Int64 := .ofBitVec (x.signExtend 64)

theorem bits_le : w.bits ≤ 64 := by cases w <;> decide

theorem wrap_eq_extend (v) : w.wrap v = w.extend (w.low v) := by
  cases w with
  | int =>
    refine Int64.toBitVec_inj.mp ?_
    change (v.toBitVec.signExtend 32).signExtend 64 = _
    rw [BitVec.signExtend_eq_setWidth_of_le v.toBitVec (by decide)]
    rfl
  | long => simp [wrap, extend, low, bits]

@[simp] theorem low_extend (x : BitVec w.bits) : w.low (w.extend x) = x :=
  setWidth_signExtend w.bits_le x

theorem extend_inj : w.extend x = w.extend y ↔ x = y :=
  ⟨fun same => by rw [← w.low_extend x, same, low_extend], congrArg _⟩

theorem extend_lt : w.extend x < w.extend y ↔ x.slt y = true := by
  rw [Int64.lt_iff_toInt_lt, BitVec.slt_iff_toInt_lt]
  change (x.signExtend 64).toInt < (y.signExtend 64).toInt ↔ _
  rw [BitVec.toInt_signExtend_of_le w.bits_le, BitVec.toInt_signExtend_of_le w.bits_le]

theorem low_add (u v) : w.low (u + v) = w.low u + w.low v :=
  BitVec.setWidth_add u.toBitVec v.toBitVec w.bits_le

theorem low_sub (u v) : w.low (u - v) = w.low u - w.low v := by
  rw [BitVec.eq_sub_iff_add_eq, ← low_add, Int64.sub_add_cancel]

theorem low_and (u v) : w.low (u &&& v) = w.low u &&& w.low v := BitVec.setWidth_and

theorem low_or (u v) : w.low (u ||| v) = w.low u ||| w.low v := BitVec.setWidth_or

theorem low_xor (u v) : w.low (u ^^^ v) = w.low u ^^^ w.low v := BitVec.setWidth_xor

theorem low_one : w.low 1 = 1 := by cases w <;> rfl

end SlotWidth

namespace AtomicOp

variable (op : AtomicOp) (w : SlotWidth)

/-- What an operation with these operands, of which missing ones are zero, stores and returns on the
word in a cell. -/
def word (cell : Int64) (operands : List Int64) : BitVec w.bits × BitVec w.bits :=
  op.onWord (w.low cell) (w.low (operands.headD 0)) (w.low (operands.getD 1 0))

theorem apply_extend (x : BitVec w.bits) (operands) :
    op.apply w (w.extend x) operands =
      (w.extend (op.word w (w.extend x) operands).1,
        w.extend (op.word w (w.extend x) operands).2) := by
  cases op <;> simp only [apply, next, word, onWord, w.wrap_eq_extend, w.low_add, w.low_sub,
    w.low_and, w.low_or, w.low_xor, w.low_one, w.low_extend, w.extend_inj, w.extend_lt, reduceCtorEq,
    if_true, if_false]
  case cmpXchg | min | max => split_ifs <;> rfl

end AtomicOp

/-- Narrowing a value of a slot's width loses nothing. -/
theorem SlotWidth.integer?_extend (w : SlotWidth) (x : BitVec w.bits) :
    (Value.ofInteger w.scalar (w.extend x)).integer? = some (w.extend x) := by
  have same := w.wrap_eq_extend (w.extend x)
  rw [low_extend] at same
  cases w with
  | int => exact congrArg some same
  | long => rfl

open Eval in
/-- A slot always holds the sign extension of a word of its width. An operation on it stores and
returns the sign extensions of what the operation on words stores and returns, leaves the other slots
alone, and what the evaluation of a kernel makes of the result is the same number. -/
theorem slots_simulate_words {s : SlotArray} (reached : s.Reached) {i : Nat} {cell : Int64}
    (found : s.get? i = some cell) (op : AtomicOp) (operands : List Int64) :
    let w := s.width
    let stored := w.extend (op.word w cell operands).1
    let result := w.extend (op.word w cell operands).2
    cell = w.extend (w.low cell) ∧
    s.perform? i op operands = some (s.put i stored, result) ∧
    ∀ {c : Context} {name : String} {index : Option Value} {m : Machine} {k : Nat} {id : SlotsId},
      binding c name m = .ok (k, .slots id) m → m.memory.slots[id]? = some s →
      slotNumber name s.size index m = .ok i m →
      ∃ v, v.integer? = some result ∧
        performAtomic c op name index operands m =
          .ok v { m with memory := m.memory.modifySlots id fun _ => s.put i stored } := by
  have held : cell = s.width.extend (s.width.low cell) := by
    rw [← SlotWidth.wrap_eq_extend]
    exact (reached.canonical cell (Array.mem_of_getElem? found)).symm
  have performed : s.perform? i op operands =
      some (s.put i (s.width.extend (op.word s.width cell operands).1),
        s.width.extend (op.word s.width cell operands).2) := by
    have applied := op.apply_extend s.width (s.width.low cell) operands
    rw [← held] at applied
    rw [SlotArray.perform?, found, Option.map_some, applied]
    rfl
  refine ⟨held, performed, ?_⟩
  intro c name index m k id bound there number
  refine ⟨_, s.width.integer?_extend _, ?_⟩
  rw [performAtomic_eq bound there, bind_of_ok number, performAt, performed]
  rfl

open Eval in
/-- A slot of 32 bits at the greatest number, which an operand whose low 32 bits are one raises to the
least. -/
theorem raised_slot_wraps :
    let s : SlotArray := ⟨.int, .global, #[2147483647]⟩
    let raised : SlotArray := ⟨.int, .global, #[-2147483648]⟩
    let d : Descriptor :=
      ⟨"Hits", [⟨"hits", .atomic .int, .scalar, .global, .readWrite⟩], { name := "run", body := [] }, []⟩
    let c : Context := ⟨d, [.slots 0], ⟨⟨0, 0, 0⟩, ⟨1, 1, 1⟩, ⟨1, 1, 1⟩, 0⟩⟩
    s.Reached ∧ s.perform? 0 .add [4294967297] = some (raised, 2147483647) ∧
      ∃ v : Value, v.integer? = some 2147483647 ∧
        performAtomic c .add "hits" none [4294967297] { memory := { slots := #[s] } } =
          .ok v { memory := { slots := #[raised] } } := by
  intro s raised d c
  have reached : s.Reached := .single .int .global 2147483647
  have simulated := slots_simulate_words reached (show s.get? 0 = some 2147483647 from rfl) .add
    [4294967297]
  have stored : SlotWidth.int.extend
      (AtomicOp.add.word .int 2147483647 [4294967297]).1 = -2147483648 := by decide
  have result : SlotWidth.int.extend
      (AtomicOp.add.word .int 2147483647 [4294967297]).2 = 2147483647 := by decide
  dsimp only [s] at simulated
  rw [stored, result] at simulated
  exact ⟨reached, simulated.2.1, simulated.2.2 (show binding c "hits" _ = .ok (0, .slots 0) _ from rfl)
    rfl rfl⟩

end GridKernel
