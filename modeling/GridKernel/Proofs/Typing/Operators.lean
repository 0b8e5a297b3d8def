import GridKernel.Eval.Basic
import GridKernel.Typing.Expr
import Mathlib.Data.List.Basic

/-!
# Operators on values of the right types

Where the types of the operands are the ones an operator accepts, applying it gives a value of the
type it announces. The one exception is an integer division by zero.
-/

namespace GridKernel

variable {v : Value}

namespace Value

@[simp] theorem type_zero (t) : (zero t).type = t := by cases t <;> rfl

@[simp] theorem type_ofBits (t bits) : (ofBits t bits).type = t := by
  cases t <;> rfl

@[simp] theorem type_ofInteger (t i) : (ofInteger t i).type = t := by
  cases t <;> rfl

@[simp] theorem type_ofDouble (t x) : (ofDouble t x).type = t := by
  cases t <;> rfl

@[simp] theorem type_cast (t) (v : Value) : (v.cast t).type = t := by
  unfold cast
  split
  · assumption
  · split
    · rename_i boolean
      rw [boolean]
      rfl
    · split <;> simp

@[simp] theorem cast_type (v : Value) : v.cast v.type = v := by simp [cast]

theorem boolean_of_type (h : v.type = .boolean) : ∃ b, v = .boolean b := by
  cases v with
  | boolean b => exact ⟨b, rfl⟩
  | _ => cases h

theorem int_of_type (h : v.type = .int) : ∃ i, v = .int i := by
  cases v with
  | int i => exact ⟨i, rfl⟩
  | _ => cases h

/-- Slots hold integers, so their operands are integers too. -/
theorem integer_of_slot {w : SlotWidth} (h : v.type = w.scalar) : ∃ i, v.integer? = some i := by
  cases w <;> cases v <;> first | exact ⟨_, rfl⟩ | cases h

end Value

namespace Eval

open Typing

/-- The result of an operator: a value of type `t`, or a division by zero. -/
def Yields (t : ScalarType) : Except Trap Value → Prop
  | .ok v => v.type = t
  | .error e => e = .divisionByZero

theorem shift_yields (shifts : op.isShift = true) (typed : binaryType op l.type r.type = .ok t) :
    Yields t (shift op l r) := by
  simp only [binaryType, shifts, if_true] at typed
  cases l <;> cases r <;> simp only [Value.type] at typed <;> cases typed <;> rfl

theorem int32Op_yields (a b) (plain : op.isShift = false)
    (typed : binaryType op .int .int = .ok t) : Yields t (int32Op op a b) := by
  cases op <;> cases plain <;> cases typed
  case div | rem => simp only [int32Op]; split <;> rfl
  all_goals rfl

theorem int64Op_yields (a b) (plain : op.isShift = false)
    (typed : binaryType op .long .long = .ok t) : Yields t (int64Op op a b) := by
  cases op <;> cases plain <;> cases typed
  case div | rem => simp only [int64Op]; split <;> rfl
  all_goals rfl

theorem singleOp_yields (a b) (plain : op.isShift = false)
    (typed : binaryType op .float .float = .ok t) : Yields t (singleOp op a b) := by
  cases op <;> cases plain <;> cases typed
  all_goals rfl

theorem doubleOp_yields (a b) (plain : op.isShift = false)
    (typed : binaryType op .double .double = .ok t) : Yields t (doubleOp op a b) := by
  cases op <;> cases plain <;> cases typed
  all_goals rfl

theorem booleanOp_yields (a b) (plain : op.isShift = false)
    (typed : binaryType op .boolean .boolean = .ok t) : Yields t (booleanOp op a b) := by
  cases op <;> cases plain <;> cases typed
  all_goals rfl

/-- Operators other than shifts take operands of one type. -/
theorem binaryType_same (plain : op.isShift = false) (typed : binaryType op l r = .ok t) :
    l = r := by
  simp only [binaryType, plain, Bool.false_eq_true, if_false] at typed
  split at typed
  · cases typed
  · rename_i same
    exact Classical.not_not.mp same

/-- No operator is defined on the types narrower than `int`. -/
theorem binaryType_narrow (plain : op.isShift = false) (typed : binaryType op l l = .ok t) :
    l = .boolean ∨ l.isPromoted = true := by
  cases l with
  | boolean => exact .inl rfl
  | int | long | float | double => exact .inr rfl
  | byte | short | char =>
    cases op <;> cases plain <;> cases typed

theorem binary_yields (typed : binaryType op l.type r.type = .ok t) : Yields t (binary op l r) := by
  unfold binary
  cases shifts : op.isShift with
  | true => exact shift_yields shifts typed
  | false =>
    have same := binaryType_same shifts typed
    rw [← same] at typed
    have range := binaryType_narrow shifts typed
    -- With equal types only the pairs on the diagonal are left.
    cases l <;> cases r <;> simp [Value.type, ScalarType.isPromoted] at same range
    case int a b => exact int32Op_yields a b shifts typed
    case long a b => exact int64Op_yields a b shifts typed
    case float a b => exact singleOp_yields a b shifts typed
    case double a b => exact doubleOp_yields a b shifts typed
    case boolean a b => exact booleanOp_yields a b shifts typed

theorem unary_yields {op : UnaryOp} (typed : unaryType op v.type = .ok t) :
    ∃ w, unary op v = .ok w ∧ w.type = t := by
  cases op <;> cases v <;> first | (cases typed; exact ⟨_, rfl, rfl⟩) | cases typed

/-- An increment keeps the type. -/
@[simp] theorem type_stepped (op v) : (stepped op v).type = v.type := by
  cases op <;> cases v <;> rfl

/-- A function of one argument that is defined on floating point alone. -/
theorem floating_yields (accepted : v.type.isFloating = true) :
    ∃ w, floating func f [v] = .ok w ∧ w.type = v.type := by
  cases v <;> simp [Value.type, ScalarType.isFloating] at accepted
  case float a => exact ⟨_, rfl, rfl⟩
  case double a => exact ⟨_, rfl, rfl⟩

theorem absolute_yields (accepted : v.type.isPromoted = true) :
    ∃ w, absolute [v] = .ok w ∧ w.type = v.type := by
  cases v <;> simp [Value.type, ScalarType.isPromoted] at accepted <;> exact ⟨_, rfl, rfl⟩

theorem minimum_yields (same : v.type = w.type) (accepted : v.type.isPromoted = true) :
    ∃ u, minimum v w = .ok u ∧ u.type = v.type := by
  cases v <;> cases w <;> simp [Value.type, ScalarType.isPromoted] at same accepted <;>
    exact ⟨_, rfl, rfl⟩

theorem maximum_yields (same : v.type = w.type) (accepted : v.type.isPromoted = true) :
    ∃ u, maximum v w = .ok u ∧ u.type = v.type := by
  cases v <;> cases w <;> simp [Value.type, ScalarType.isPromoted] at same accepted <;>
    exact ⟨_, rfl, rfl⟩

theorem power_yields (same : v.type = w.type) (accepted : v.type.isFloating = true) :
    ∃ u, power v w = .ok u ∧ u.type = v.type := by
  cases v <;> cases w <;> simp [Value.type, ScalarType.isFloating] at same accepted <;>
    exact ⟨_, rfl, rfl⟩

/-- A mathematical function never fails on arguments it accepts. -/
theorem math_yields (question : func.isQuery = false) (pass : func ≠ .passId)
    (arity : args.length = func.arity) (typed : builtinType func (args.map Value.type) = .ok t) :
    ∃ v, math func args = .ok v ∧ v.type = t := by
  cases func <;> simp only [Builtin.isQuery, Bool.true_eq_false, ne_eq, not_true_eq_false]
    at question pass <;> simp only [Builtin.arity] at arity
  case min | max | pow =>
    obtain ⟨a, b, rfl⟩ := List.length_eq_two.mp arity
    simp only [builtinType, List.map_cons, List.map_nil] at typed
    split at typed
    · rename_i accepted
      simp only [Bool.and_eq_true, decide_eq_true_eq] at accepted
      cases typed
      first
        | exact minimum_yields accepted.1 accepted.2
        | exact maximum_yields accepted.1 accepted.2
        | exact power_yields accepted.1 accepted.2
    · cases typed
  all_goals
    obtain ⟨a, rfl⟩ := List.length_eq_one_iff.mp arity
    simp only [builtinType, List.map_cons, List.map_nil, Builtin.isQuery, Bool.false_eq_true,
      if_false] at typed
    split at typed
    · rename_i accepted
      cases typed
      first
        | exact absolute_yields accepted
        | exact floating_yields accepted
    · cases typed

/-- A built-in function gives a value of the type it announces. -/
theorem builtinValue_yields (arity : args.length = func.arity)
    (typed : builtinType func (args.map Value.type) = .ok t) (m) :
    ∃ v, builtinValue c func args m = .ok v m ∧ v.type = t := by
  unfold builtinValue
  by_cases pass : func = .passId
  · subst pass
    cases typed
    exact ⟨_, rfl, rfl⟩
  · rw [if_neg pass]
    cases question : func.isQuery with
    | true =>
      have asked : t = .int := by
        cases func <;> simp only [Builtin.isQuery, Bool.false_eq_true] at question <;>
          obtain ⟨a, rfl⟩ := List.length_eq_one_iff.mp arity <;>
          simp only [builtinType, Builtin.isQuery, List.map_cons, List.map_nil, if_true] at typed <;>
          split at typed <;> cases typed <;> rfl
      subst asked
      exact ⟨_, rfl, rfl⟩
    | false =>
      obtain ⟨v, computed, type⟩ := math_yields question pass arity typed
      refine ⟨v, ?_, type⟩
      simp only [Bool.false_eq_true, if_false, computed]
      rfl

end Eval

end GridKernel
