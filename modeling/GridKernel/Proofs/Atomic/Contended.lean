import GridKernel.Proofs.Atomic.Linearizable
import GridKernel.Proofs.Atomic.Words
import Mathlib

/-!
# Contended updates

Threads that only count a slot up and down, or only take minima, maxima or one bitwise operation with
it, leave in it what all their operations make of the initial value, in whichever order these take
effect.
-/

namespace GridKernel.Atomic

open List

/-- Operations whose order does not matter among themselves. -/
inductive Family where
  | sums | least | greatest | meet | join | parity

def Family.ops : Family → List AtomicOp
  | sums => [.add, .sub, .inc, .dec]
  | least => [.min]
  | greatest => [.max]
  | meet => [.and]
  | join => [.or]
  | parity => [.xor]

namespace Request

variable (r : Request) (w : SlotWidth)

/-- The first operand, at the width of the slot. -/
def operand : Int64 := w.wrap (r.operands.headD 0)

/-- What an operation of the sums adds, as a number of any size. -/
def amount : Int :=
  match r.op with
  | .sub => -(r.operands.headD 0).toInt
  | .inc => 1
  | .dec => -1
  | _ => (r.operands.headD 0).toInt

end Request

/-- What a slot holds after operations, one after another. -/
def applyAll (w : SlotWidth) (v : Int64) (rs : List Request) : Int64 :=
  rs.foldl (fun v r => (r.apply w v).1) v

/-- The initial value and the operands. -/
def contents (w : SlotWidth) (initial : Int64) (rs : List Request) : List Int64 :=
  initial :: rs.map (·.operand w)

def bit (i : Nat) (v : Int64) : Bool := v.toBitVec.getLsbD i

/-- The value is the sum, least, greatest or bitwise combination of the initial value and what the
operations bring, regardless of their order. -/
def Family.Combines (f : Family) (w : SlotWidth) (initial : Int64) (rs : List Request)
    (v : Int64) : Prop :=
  let all := contents w initial rs
  match f with
  | sums => v = w.wrap (.ofInt (initial.toInt + (rs.map Request.amount).sum))
  | least => v ∈ all ∧ ∀ u ∈ all, v ≤ u
  | greatest => v ∈ all ∧ ∀ u ∈ all, u ≤ v
  | meet => ∀ i, bit i v = true ↔ ∀ u ∈ all, bit i u = true
  | join => ∀ i, bit i v = true ↔ ∃ u ∈ all, bit i u = true
  | parity => ∀ i, bit i v = true ↔ all.countP (bit i) % 2 = 1

variable {w : SlotWidth} {f : Family} {v final : Int64} {r : Request}

/-! ## One operation -/

theorem low_wrap (w : SlotWidth) (v) : w.low (w.wrap v) = w.low v := by
  rw [w.wrap_eq_extend, w.low_extend]

theorem wrap_eq_iff : w.wrap u = w.wrap v ↔ w.low u = w.low v := by
  rw [w.wrap_eq_extend, w.wrap_eq_extend, w.extend_inj]

/-- Wrapping a summand does not change a wrapped sum. -/
theorem wrap_sum (w : SlotWidth) (i j) :
    w.wrap (.ofInt ((w.wrap (.ofInt i)).toInt + j)) = w.wrap (.ofInt (i + j)) := by
  rw [wrap_eq_iff, Int64.ofInt_add, Int64.ofInt_add, Int64.ofInt_toInt, w.low_add, w.low_add,
    low_wrap]

theorem apply_sum (sums : r.op ∈ Family.sums.ops) (v) :
    (r.apply w v).1 = w.wrap (.ofInt (v.toInt + r.amount)) := by
  obtain ⟨op, operands⟩ := r
  rw [Request.apply_eq, Int64.ofInt_add, Int64.ofInt_toInt]
  simp only [Family.ops, mem_cons, not_mem_nil, or_false] at sums
  rcases sums with rfl | rfl | rfl | rfl
  · change w.wrap (v + w.wrap (operands.headD 0)) = w.wrap (v + .ofInt (operands.headD 0).toInt)
    rw [wrap_eq_iff, Int64.ofInt_toInt, w.low_add, w.low_add, low_wrap]
  · change w.wrap (v - w.wrap (operands.headD 0)) = w.wrap (v + .ofInt (-(operands.headD 0).toInt))
    rw [wrap_eq_iff, Int64.ofInt_neg, Int64.ofInt_toInt, ← Int64.sub_eq_add_neg, w.low_sub,
      w.low_sub, low_wrap]
  · rfl
  · exact congrArg w.wrap (Int64.sub_eq_add_neg v 1)

/-- Bitwise operations keep to the width of their operands. -/
theorem wrap_bitwise (wide : w.wrap u = u) (wide' : w.wrap v = v) :
    w.wrap (u &&& v) = u &&& v ∧ w.wrap (u ||| v) = u ||| v ∧ w.wrap (u ^^^ v) = u ^^^ v := by
  cases w with
  | int => simp_all [SlotWidth.wrap]
  | long => exact ⟨rfl, rfl, rfl⟩

/-- What the families other than the sums make of a value and an operand. -/
def Family.pair (f : Family) (v a : Int64) : Int64 :=
  match f with
  | sums => v + a
  | least => if a < v then a else v
  | greatest => if v < a then a else v
  | meet => v &&& a
  | join => v ||| a
  | parity => v ^^^ a

theorem apply_pair (other : f ≠ .sums) (drawn : r.op ∈ f.ops) (wide : w.wrap v = v) :
    (r.apply w v).1 = f.pair v (r.operand w) := by
  have wide' : w.wrap (r.operand w) = r.operand w := w.wrap_wrap _
  obtain ⟨both, either, differ⟩ := wrap_bitwise wide wide'
  rw [Request.apply_eq, Request.next]
  cases f with
  | sums => contradiction
  | least | greatest =>
    rw [mem_singleton.mp drawn]
    simp only [AtomicOp.next, Family.pair, Request.operand, w.wrap_wrap]
    rw [apply_ite (Option.getD · v)]
    rfl
  | meet | join | parity =>
    rw [mem_singleton.mp drawn]
    assumption

theorem bit_and (i u v) : bit i (u &&& v) = (bit i u && bit i v) := BitVec.getLsbD_and

theorem bit_or (i u v) : bit i (u ||| v) = (bit i u || bit i v) := BitVec.getLsbD_or

theorem bit_xor (i u v) : bit i (u ^^^ v) = (bit i u ^^ bit i v) := BitVec.getLsbD_xor

theorem apply_canonical (wide : w.wrap v = v) : w.wrap (r.apply w v).1 = (r.apply w v).1 := by
  rw [← wide, w.wrap_eq_extend v, Request.apply, AtomicOp.apply_extend, w.wrap_eq_extend,
    w.low_extend]

/-! ## One operation after another -/

namespace Family.Combines

theorem nil (wide : w.wrap v = v) : f.Combines w v [] v := by
  cases f with
  | sums => simp [Combines, wide]
  | least | greatest | meet | join => simp [Combines, contents]
  | parity => exact fun i => by cases held : bit i v <;> simp [contents, held]

/-- What bounds two values and is one of them stands for both. -/
theorem extreme_cons (le : Int64 → Int64 → Prop) (trans : ∀ {u v v'}, le u v → le v v' → le u v')
    (one : x = first ∨ x = second) (bound : le x first) (bound' : le x second)
    (h : final ∈ x :: rest ∧ ∀ u ∈ x :: rest, le final u) :
    final ∈ first :: second :: rest ∧ ∀ u ∈ first :: second :: rest, le final u := by
  obtain ⟨here, others⟩ := forall_mem_cons.mp h.2
  refine ⟨?_, forall_mem_cons.mpr
    ⟨trans here bound, forall_mem_cons.mpr ⟨trans here bound', others⟩⟩⟩
  have member := mem_cons.mp h.1
  grind

/-- What the first operation leaves combines with the rest as the initial value and its operand do. -/
theorem cons (drawn : r.op ∈ f.ops) (wide : w.wrap v = v)
    (h : f.Combines w (r.apply w v).1 rs final) : f.Combines w v (r :: rs) final := by
  by_cases other : f = .sums
  · subst other
    refine Eq.trans h ?_
    rw [apply_sum drawn, wrap_sum, map_cons, sum_cons, Int.add_assoc]
  rw [apply_pair other drawn wide] at h
  cases f with
  | sums => contradiction
  | least =>
    by_cases less : r.operand w < v
    · rw [pair, if_pos less] at h
      exact extreme_cons (· ≤ ·) Int64.le_trans (.inr rfl) (Int64.le_of_lt less) (Int64.le_refl _) h
    · rw [pair, if_neg less] at h
      exact extreme_cons (· ≤ ·) Int64.le_trans (.inl rfl) (Int64.le_refl v)
        (Int64.not_lt.mp less) h
  | greatest =>
    have trans {u v v' : Int64} (above : u ≥ v) (above' : v ≥ v') : u ≥ v' :=
      Int64.le_trans above' above
    by_cases less : v < r.operand w
    · rw [pair, if_pos less] at h
      exact extreme_cons (· ≥ ·) trans (.inr rfl) (Int64.le_of_lt less) (Int64.le_refl _) h
    · rw [pair, if_neg less] at h
      exact extreme_cons (· ≥ ·) trans (.inl rfl) (Int64.le_refl v) (Int64.not_lt.mp less) h
  | meet => simpa [Combines, contents, pair, bit_and, and_assoc] using h
  | join => simpa [Combines, contents, pair, bit_or, or_assoc] using h
  | parity =>
    intro i
    refine (h i).trans ?_
    simp only [contents, map_cons, countP_cons, pair, bit_xor]
    cases bit i v <;> cases bit i (r.operand w) <;> simp
    omega

theorem perm (same : rs' ~ rs) (h : f.Combines w v rs' final) : f.Combines w v rs final := by
  have all : contents w v rs' ~ contents w v rs := (same.map _).cons v
  cases f with
  | sums =>
    have total : (rs'.map Request.amount).sum = (rs.map Request.amount).sum := (same.map _).sum_eq
    exact Eq.trans h (by rw [total])
  | least | greatest =>
    exact ⟨all.mem_iff.mp h.1, fun u member => h.2 u (all.mem_iff.mpr member)⟩
  | meet => exact fun i => (h i).trans (forall_congr' fun u => imp_congr_left all.mem_iff)
  | join => exact fun i => (h i).trans (exists_congr fun u => and_congr_left' all.mem_iff)
  | parity => exact fun i => (h i).trans (by rw [all.countP_eq])

theorem unique (h : f.Combines w v rs final) (h' : f.Combines w v rs u) : final = u := by
  have bits (same : ∀ i, bit i final = true ↔ bit i u = true) : final = u :=
    Int64.toBitVec_inj.mp (BitVec.eq_of_getLsbD_eq fun i _ => Bool.eq_iff_iff.mpr (same i))
  cases f with
  | sums => exact Eq.trans h (Eq.symm h')
  | least => exact Int64.le_antisymm (h.2 u h'.1) (h'.2 final h.1)
  | greatest => exact Int64.le_antisymm (h'.2 final h.1) (h.2 u h'.1)
  | meet | join | parity => exact bits fun i => (h i).trans (h' i).symm

end Family.Combines

/-- By induction on the operations; the slot stays within its width. -/
theorem applyAll_combines (drawn : ∀ r ∈ rs, r.op ∈ f.ops) (wide : w.wrap v = v) :
    f.Combines w v rs (applyAll w v rs) := by
  induction rs generalizing v with
  | nil => exact .nil wide
  | cons r rest ih =>
    obtain ⟨first, others⟩ := forall_mem_cons.mp drawn
    exact .cons first wide (ih others (apply_canonical wide))

/-- However operations of one family are ordered, a slot that holds a value of its width ends up with
the same value: the wrapped sum, the least, the greatest or the bitwise combination of the initial
value and what the operations bring. -/
theorem contended_updates_order_free (w : SlotWidth) {initial : Int64}
    (canonical : w.wrap initial = initial) (f : Family) {rs : List Request}
    (drawn : ∀ r ∈ rs, r.op ∈ f.ops) :
    ∃ final, f.Combines w initial rs final ∧
      ∀ order, order ~ rs → applyAll w initial order = final := by
  refine ⟨applyAll w initial rs, applyAll_combines drawn canonical, fun order same => ?_⟩
  have drawn' : ∀ r ∈ order, r.op ∈ f.ops := fun r member => drawn r (same.mem_iff.mp member)
  exact ((applyAll_combines drawn' canonical).perm same).unique (applyAll_combines drawn canonical)

/-- A slot of 32 bits near its greatest number, and operands of which one has more bits: in every
order the sum wraps around to the least number, and the maximum is that of the low 32 bits. -/
theorem raised_in_any_order :
    let counts : List Request := [⟨.add, [4294967298]⟩, ⟨.dec, []⟩, ⟨.inc, []⟩, ⟨.sub, [1]⟩]
    let peaks : List Request := [⟨.max, [2147483647]⟩, ⟨.max, [4294967298]⟩]
    (∀ order, order ~ counts → applyAll .int 2147483647 order = -2147483648) ∧
      ∀ order, order ~ peaks → applyAll .int 5 order = 2147483647 := by
  intro counts peaks
  constructor
  · obtain ⟨final, -, same⟩ := contended_updates_order_free .int
      (show SlotWidth.int.wrap 2147483647 = 2147483647 by decide) .sums
      (show ∀ r ∈ counts, r.op ∈ Family.sums.ops by decide)
    rw [← same counts (.refl counts)] at same
    exact same
  · obtain ⟨final, -, same⟩ := contended_updates_order_free .int
      (show SlotWidth.int.wrap 5 = 5 by decide) .greatest
      (show ∀ r ∈ peaks, r.op ∈ Family.greatest.ops by decide)
    rw [← same peaks (.refl peaks)] at same
    exact same

end GridKernel.Atomic
