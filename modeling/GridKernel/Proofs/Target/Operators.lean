import GridKernel.Proofs.Target.Semantics
import GridKernel.Proofs.Typing.Operators

/-!
# Operators of both languages

C converts operands to a common type. Where a kernel's operator is defined its operands have one
type already, and the conversion does nothing. An increment of a narrow integer is carried out as
`int` and narrowed again, and floating point is narrowed by way of `int`.
-/

namespace GridKernel

/-- Sixteen bits can be taken before or after an extension from 32. -/
theorem toUInt16_extended (x : Int64) :
    x.toInt32.toInt64.toUInt64.toUInt16 = x.toUInt64.toUInt16 := by
  apply UInt16.eq_of_toBitVec_eq
  simp only [UInt64.toBitVec_toUInt16, Int64.toBitVec_toUInt64, Int32.toBitVec_toInt64,
    Int64.toBitVec_toInt32]
  apply BitVec.eq_of_getLsbD_eq
  intro i inBounds
  have : i < 32 := by omega
  have : i < 64 := by omega
  simp [BitVec.getElem_signExtend, *]

namespace Value

variable {t : ScalarType} {v : Value}

/-- The integral types up to `int` take no more than 32 bits of an integer. -/
theorem ofInteger_toInt32 (integral : t.isIntegral = true) (narrow : t ≠ .long) (i) :
    ofInteger t i.toInt32.toInt64 = ofInteger t i := by
  cases t with
  | byte => simp only [ofInteger, Int32.toInt8_toInt64, Int64.toInt8_toInt32]
  | short => simp only [ofInteger, Int32.toInt16_toInt64, Int64.toInt16_toInt32]
  | char => simp only [ofInteger, toUInt16_extended]
  | int => simp only [ofInteger, Int32.toInt32_toInt64]
  | long => exact absurd rfl narrow
  | boolean | float | double => cases integral

theorem cast_integer (integral : t.isIntegral = true) (h : v.integer? = some i) :
    v.cast t = ofInteger t i := by
  by_cases same : v.type = t
  · subst same
    cases v <;> cases h <;> simp [cast, ofInteger, type]
  · have numeric : t ≠ .boolean := by
      rintro rfl
      cases integral
    cases v <;> cases h <;> simp [cast, same, numeric, integer?]

theorem cast_floating (floating : v.type.isFloating = true) :
    ∃ x, ∀ {u : ScalarType}, u.isIntegral = true → v.cast u = ofDouble u x := by
  cases v with
  | float y => exact ⟨y.toDouble, fun {u} integral => by cases u <;> cases integral <;> rfl⟩
  | double y => exact ⟨y, fun {u} integral => by cases u <;> cases integral <;> rfl⟩
  | _ => cases floating

/-- Floating point is narrowed by way of `int`. -/
theorem cast_by_int (floating : v.type.isFloating = true) (integral : t.isIntegral = true)
    (narrow : t ≠ .long) : (v.cast .int).cast t = v.cast t := by
  obtain ⟨x, converted⟩ := cast_floating floating
  have narrowed : ofDouble t x = ofInteger t x.toInt32.toInt64 := by
    cases t with
    | byte | short | char | int => rfl
    | long => exact absurd rfl narrow
    | boolean | float | double => cases integral
  calc (v.cast .int).cast t
      = (ofInteger .int x.toInt32.toInt64).cast t := congrArg (cast t) (converted rfl)
    _ = ofInteger t x.toInt32.toInt64.toInt32.toInt64 := cast_integer integral rfl
    _ = ofInteger t x.toInt32.toInt64 := ofInteger_toInt32 integral narrow _
    _ = v.cast t := by rw [converted integral, narrowed]

end Value

namespace Target

open Typing (binaryType)

/-- Where a kernel's operator is defined, C's means the same. -/
theorem apply_eq (typed : binaryType op l.type r.type = .ok t) :
    apply op l r = Eval.binary op l r := by
  unfold apply
  cases shifts : op.isShift with
  | true => rfl
  | false =>
    have same := Eval.binaryType_same shifts typed
    rw [← same] at typed
    have range := Eval.binaryType_narrow shifts typed
    -- Operands of one type that is not narrower than `int` have that type in common.
    cases l <;> cases r <;> simp [Value.type, ScalarType.isPromoted] at same range
    case boolean a b => simp [Eval.binary, shifts]
    all_goals rfl

/-- Adding or subtracting one in C, and converting back. -/
theorem apply_step (op) (numeric : old.type.isNumeric = true) :
    ∃ r, apply op.binary old (.int 1) = .ok r ∧ r.cast old.type = Eval.stepped op old := by
  have narrow : ∀ {t : ScalarType} {x : Except Trap Value} {k : Int64}, t.isIntegral = true →
      t ≠ .long → x = .ok (.int k.toInt32) →
      ∃ r, x = .ok r ∧ r.cast t = (Value.long k).cast t := by
    rintro t _ k integral narrow rfl
    refine ⟨_, rfl, ?_⟩
    calc (Value.int k.toInt32).cast t
        = .ofInteger t k.toInt32.toInt64 := Value.cast_integer integral rfl
      _ = .ofInteger t k := Value.ofInteger_toInt32 integral narrow k
      _ = (Value.long k).cast t := (Value.cast_integer integral rfl).symm
  cases old with
  | boolean => cases numeric
  | long v | float v | double v => cases op <;> exact ⟨_, rfl, rfl⟩
  | byte v | short v | char v =>
    cases op with
    | inc => exact narrow rfl nofun (by rw [Int64.toInt32_add]; rfl)
    | dec => exact narrow rfl nofun (by rw [Int64.toInt32_sub]; rfl)
  | int v =>
    have same : v.toInt64.toInt32 = v := Int32.toInt32_toInt64 v
    cases op with
    | inc =>
      refine narrow rfl nofun ?_
      change _ = Except.ok (Value.int (v.toInt64 + 1).toInt32)
      rw [Int64.toInt32_add, same]
      rfl
    | dec =>
      refine narrow rfl nofun ?_
      change _ = Except.ok (Value.int (v.toInt64 - 1).toInt32)
      rw [Int64.toInt32_sub, same]
      rfl

end Target

end GridKernel
