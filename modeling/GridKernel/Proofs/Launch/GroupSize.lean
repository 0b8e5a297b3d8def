import GridKernel.Launch.Range
import GridKernel.Proofs.Outcome
import Mathlib.Algebra.BigOperators.Group.List.Basic
import Mathlib.Algebra.Order.BigOperators.GroupWithZero.List
import Mathlib.Algebra.Order.Ring.Nat
import Mathlib.Data.List.Forall2

/-!
# The size of a work-group

`localSizes` accepts a range exactly if its work-items can be counted and the work-group size that it
fixes, if it fixes one, divides it and is within the maximum. A size that is left open is chosen
greedily, dimension by dimension, and that gives the lexicographically greatest one that divides the
range and is within the maximum.

`Words.localSizes` carries out the same steps on 64-bit words and has no result where an operation
overflows or divides by zero. That never happens.
-/

namespace GridKernel

open List

variable {sizes : List Nat}

namespace Dim3

/-- Each size divides the size of the same dimension. -/
def Divides (a b : Dim3) : Prop := a.x ∣ b.x ∧ a.y ∣ b.y ∧ a.z ∣ b.z

/-- The sizes are the same, or the first that differs is less. -/
def AtMost (a b : Dim3) : Prop := a.toList = b.toList ∨ List.Lex (· < ·) a.toList b.toList

theorem divides_iff {a b : Dim3} : a.Divides b ↔ List.Forall₂ (· ∣ ·) a.toList b.toList := by
  simp [Divides, toList]

theorem product_eq (d : Dim3) : d.product = d.toList.prod := by
  simp [product, toList, Nat.mul_assoc]

/-- Sizes that are filled in count for nothing. -/
theorem prod_ofList (few : sizes.length ≤ 3) : (ofList sizes).toList.prod = sizes.prod := by
  match sizes with
  | [] => rfl
  | [x] | [x, y] | [x, y, z] => simp [ofList, toList]
  | _ :: _ :: _ :: _ :: _ =>
    simp only [length_cons] at few
    omega

theorem take_ofList (few : sizes.length ≤ 3) : (ofList sizes).toList.take sizes.length = sizes := by
  match sizes with
  | [] | [x] | [x, y] | [x, y, z] => rfl
  | _ :: _ :: _ :: _ :: _ =>
    simp only [length_cons] at few
    omega

theorem get_ofList (beyond : sizes.length ≤ dim) : (ofList sizes).get dim = 1 := by
  match dim with
  | 0 | 1 | 2 => simp [ofList, get, getD_eq_getElem?_getD, getElem?_eq_none beyond]
  | _ + 3 => rfl

theorem forall_mem_ofList {p : Nat → Prop} (each : ∀ n ∈ sizes, p n) (one : p 1) :
    ∀ n ∈ (ofList sizes).toList, p n := by
  have entry : ∀ i, p (sizes.getD i 1) := by
    intro i
    rw [getD_eq_getElem?_getD]
    cases found : sizes[i]? with
    | none => exact one
    | some n => exact each n (mem_of_getElem? found)
  rw [ofList, toList]
  simp only [forall_mem_cons]
  exact ⟨entry 0, entry 1, entry 2, forall_mem_nil p⟩

end Dim3

namespace Range

/-! ## Counting work-items -/

theorem foldlM_checkedMul (positive : ∀ g ∈ sizes, 0 < g) (fits : n < indexLimit) :
    sizes.foldlM checkedMul n =
      if n * sizes.prod < indexLimit then some (n * sizes.prod) else none := by
  induction sizes generalizing n with
  | nil => simp [fits]
  | cons g rest ih =>
    obtain ⟨first, others⟩ := forall_mem_cons.mp positive
    rw [foldlM_cons, prod_cons, ← Nat.mul_assoc]
    by_cases small : n * g < indexLimit
    · simp only [checkedMul, if_pos small]
      exact ih others small
    · -- What overflows here still does with the other sizes.
      have more : n * g ≤ n * g * rest.prod :=
        Nat.le_mul_of_pos_right _ (prod_pos others)
      rw [checkedMul, if_neg small, if_neg (by omega)]
      rfl

theorem one_lt_indexLimit : 1 < indexLimit := by decide

variable {r : Range}

theorem checkedWorkItems_eq (positive : ∀ g ∈ r.sizes, 0 < g) :
    r.checkedWorkItems = if r.sizes.prod < indexLimit then some r.sizes.prod else none := by
  have padded := Dim3.forall_mem_ofList positive Nat.one_pos
  rw [checkedWorkItems, globalSize, foldlM_checkedMul padded one_lt_indexLimit, Nat.one_mul,
    Dim3.prod_ofList r.bounded.2]

/-! ## Sizes that the range fixes -/

/-- Work-group sizes, one for each dimension and each a divisor. -/
def Fit (group sizes : List Nat) : Prop := List.Forall₂ (fun l g => 0 < l ∧ l ∣ g) group sizes

variable {group : List Nat}

theorem Fit.positive (fit : Fit group sizes) : ∀ l ∈ group, 0 < l := by
  induction fit with
  | nil => exact forall_mem_nil _
  | cons both rest ih => exact forall_mem_cons.mpr ⟨both.1, ih⟩

theorem Fit.of_divides (divides : List.Forall₂ (· ∣ ·) group sizes) (positive : ∀ g ∈ sizes, 0 < g) :
    Fit group sizes := by
  induction divides with
  | nil => exact .nil
  | cons one rest ih =>
    obtain ⟨first, others⟩ := forall_mem_cons.mp positive
    exact .cons ⟨Nat.pos_of_dvd_of_pos one first, one⟩ (ih others)

theorem Fit.prod_le (fit : Fit group sizes) (positive : ∀ g ∈ sizes, 0 < g) :
    group.prod ≤ sizes.prod := by
  induction fit with
  | nil => exact Nat.le_refl _
  | cons both rest ih =>
    obtain ⟨first, others⟩ := forall_mem_cons.mp positive
    rw [prod_cons, prod_cons]
    exact Nat.mul_le_mul (Nat.le_of_dvd first both.2) (ih others)

theorem indivisible?_eq_none (dim) (same : group.length = sizes.length) :
    indivisible? dim group sizes = none ↔ Fit group sizes := by
  induction group generalizing dim sizes with
  | nil =>
    obtain rfl := length_eq_zero_iff.mp same.symm
    simp [indivisible?, Fit]
  | cons l ls ih =>
    cases sizes with
    | nil => simp at same
    | cons g gs =>
      have rest : indivisible? (dim + 1) ls gs = none ↔ Fit ls gs := ih _ (by simpa using same)
      rw [Fit, forall₂_cons, ← Fit, ← rest, indivisible?, Nat.dvd_iff_mod_eq_zero,
        Nat.pos_iff_ne_zero]
      by_cases fault : l = 0 ∨ g % l ≠ 0
      · have unfit : ¬(l ≠ 0 ∧ g % l = 0) := by omega
        simp [fault, unfit]
      · have fit : l ≠ 0 ∧ g % l = 0 := by omega
        simp [fit.1, fit.2]

variable {size : Dim3}

theorem explicitGroup_eq_ok :
    r.explicitGroup group = .ok size ↔ Fit group r.sizes ∧ size = .ofList group := by
  unfold explicitGroup
  by_cases same : group.length = r.dims
  · have fit := indivisible?_eq_none 0 same
    rw [if_neg (not_not_intro same)]
    cases first : indivisible? 0 group r.sizes with
    | none => simp [fit.mp first, eq_comm]
    | some fault =>
      have unfit : ¬Fit group r.sizes := fun h => by simp [fit.mpr h] at first
      simp [unfit]
  · have unfit : ¬Fit group r.sizes := fun h => same h.length_eq
    simp [same, unfit]

/-! ## Sizes that are chosen -/

theorem greatestDivisor_dvd (g n) : greatestDivisor g n ∣ g := by
  induction n with
  | zero => exact Nat.one_dvd g
  | succ n ih =>
    unfold greatestDivisor
    split
    · exact Nat.dvd_of_mod_eq_zero ‹_›
    · exact ih

theorem greatestDivisor_pos (g n) : 0 < greatestDivisor g n := by
  induction n with
  | zero => exact Nat.one_pos
  | succ n ih =>
    unfold greatestDivisor
    split
    · exact Nat.succ_pos n
    · exact ih

theorem greatestDivisor_le (g) (some : 0 < n) : greatestDivisor g n ≤ n := by
  induction n with
  | zero => omega
  | succ n ih =>
    unfold greatestDivisor
    split
    · exact Nat.le_refl _
    · cases n with
      | zero => exact Nat.le_refl 1
      | succ n => exact Nat.le_succ_of_le (ih (Nat.succ_pos n))

theorem le_greatestDivisor (divides : l ∣ g) (positive : 0 < l) (inside : l ≤ n) :
    l ≤ greatestDivisor g n := by
  induction n with
  | zero => omega
  | succ n ih =>
    unfold greatestDivisor
    split
    · exact inside
    · rename_i indivisible
      -- The greatest candidate is no divisor, so `l` is another one.
      have other : l ≠ n + 1 := fun same =>
        indivisible (Nat.mod_eq_zero_of_dvd (same ▸ divides))
      exact ih (by omega)

theorem greatestDivisor_one (n) : greatestDivisor 1 n = 1 :=
  Nat.dvd_one.mp (greatestDivisor_dvd 1 n)

theorem defaultGroup_fit (budget sizes) : Fit (defaultGroup budget sizes) sizes := by
  induction sizes generalizing budget with
  | nil => exact .nil
  | cons g rest ih =>
    exact .cons ⟨greatestDivisor_pos g _, greatestDivisor_dvd g _⟩ (ih _)

variable {budget : Nat}

/-- One step of the choice: the divisor leaves a budget for the other dimensions. -/
theorem greatestDivisor_budget (positive : 0 < g) (some : 0 < budget) :
    greatestDivisor g (min g budget) ≤ budget ∧
      0 < budget / greatestDivisor g (min g budget) := by
  have bound : greatestDivisor g (min g budget) ≤ min g budget :=
    greatestDivisor_le g (Nat.lt_min.mpr ⟨positive, some⟩)
  have within : greatestDivisor g (min g budget) ≤ budget := by omega
  exact ⟨within, Nat.div_pos within (greatestDivisor_pos g _)⟩

theorem prod_defaultGroup_le (positive : ∀ g ∈ sizes, 0 < g) (some : 0 < budget) :
    (defaultGroup budget sizes).prod ≤ budget := by
  induction sizes generalizing budget with
  | nil => exact some
  | cons g rest ih =>
    obtain ⟨first, others⟩ := forall_mem_cons.mp positive
    obtain ⟨-, left⟩ := greatestDivisor_budget first some
    rw [defaultGroup, prod_cons]
    calc greatestDivisor g (min g budget) *
          (defaultGroup (budget / greatestDivisor g (min g budget)) rest).prod
        ≤ greatestDivisor g (min g budget) * (budget / greatestDivisor g (min g budget)) :=
          Nat.mul_le_mul_left _ (ih others left)
      _ ≤ budget := Nat.mul_div_le budget _

/-- The choice is the greatest: no divisors within the budget come after it. -/
theorem le_defaultGroup (positive : ∀ g ∈ sizes, 0 < g) (fit : Fit other sizes)
    (within : other.prod ≤ budget) :
    other = defaultGroup budget sizes ∨ List.Lex (· < ·) other (defaultGroup budget sizes) := by
  induction fit generalizing budget with
  | nil => exact .inl rfl
  | @cons l g ls gs both rest ih =>
    obtain ⟨first, others⟩ := forall_mem_cons.mp positive
    obtain ⟨taken, divides⟩ := both
    have remaining : 0 < ls.prod := prod_pos (Fit.positive rest)
    rw [prod_cons] at within
    have inside : l ≤ budget := (Nat.le_mul_of_pos_right l remaining).trans within
    have candidate : l ≤ min g budget := Nat.le_min.mpr ⟨Nat.le_of_dvd first divides, inside⟩
    rw [defaultGroup]
    rcases Nat.lt_or_eq_of_le (le_greatestDivisor divides taken candidate) with less | same
    · exact .inr (.rel less)
    · rw [← same]
      -- The first sizes agree, so both leave the same budget.
      have left : ls.prod ≤ budget / l := by
        rw [Nat.le_div_iff_mul_le taken, Nat.mul_comm]
        exact within
      rcases ih others left with equal | less
      · exact .inl (congrArg _ equal)
      · exact .inr (.cons less)

/-- Dimensions that a range does not have are filled in before the choice or after it. -/
theorem toList_ofList_defaultGroup (budget) (few : sizes.length ≤ 3) :
    (Dim3.ofList (defaultGroup budget sizes)).toList =
      defaultGroup budget (Dim3.ofList sizes).toList := by
  match sizes with
  | [] | [x] | [x, y] => simp [Dim3.ofList, Dim3.toList, defaultGroup, greatestDivisor_one]
  | [x, y, z] => simp [Dim3.ofList, Dim3.toList, defaultGroup]
  | _ :: _ :: _ :: _ :: _ =>
    simp only [length_cons] at few
    omega

/-! ## Settling the size -/

/-- The size that is then compared with the maximum. -/
def proposed (r : Range) (max : Nat) : Except RangeFault Dim3 :=
  match r.group with
  | some sizes => r.explicitGroup sizes
  | none => .ok (.ofList (defaultGroup (Nat.max max 1) r.sizes))

theorem localSizes_eq (r : Range) (max : Nat) :
    r.localSizes max =
      match r.sizes.findIdx? (· == 0) with
      | some dim => .error (.emptyDimension dim)
      | none =>
        if r.checkedWorkItems.isNone then .error (.overflow r.text)
        else r.proposed max >>= fun size =>
          if size.product > max then .error (.groupTooLarge size.product max) else .ok size := by
  unfold localSizes proposed
  cases r.sizes.findIdx? (· == 0) with
  | some dim => rfl
  | none => cases r.checkedWorkItems.isNone <;> cases r.group <;> rfl

theorem findIdx?_eq_none : sizes.findIdx? (· == 0) = none ↔ ∀ g ∈ sizes, 0 < g := by
  simp [findIdx?_eq_none_iff, Nat.pos_iff_ne_zero]

variable {max : Nat}

theorem localSizes_eq_ok :
    r.localSizes max = .ok size ↔ (∀ g ∈ r.sizes, 0 < g) ∧ r.sizes.prod < indexLimit ∧
      r.proposed max = .ok size ∧ size.product ≤ max := by
  rw [localSizes_eq, ← findIdx?_eq_none]
  cases empty : r.sizes.findIdx? (· == 0) with
  | some dim => simp
  | none =>
    have counted := checkedWorkItems_eq (findIdx?_eq_none.mp empty)
    by_cases fits : r.sizes.prod < indexLimit
    · rw [if_pos fits] at counted
      simp only [counted, Option.isNone_some, Bool.false_eq_true, if_false, fits, true_and]
      rw [Outcome.bind_eq_ok]
      constructor
      · rintro ⟨size', made, h⟩
        obtain ⟨within, same⟩ := Outcome.ite_error_eq_ok.mp h
        obtain rfl := Except.ok.inj same
        exact ⟨made, Nat.not_lt.mp within⟩
      · rintro ⟨made, within⟩
        exact ⟨size, made, if_neg (Nat.not_lt.mpr within)⟩
    · rw [if_neg fits] at counted
      simp [counted, fits]

theorem proposed_fit (made : r.proposed max = .ok size) :
    ∃ group, Fit group r.sizes ∧ size = .ofList group := by
  unfold proposed at made
  split at made
  · exact ⟨_, explicitGroup_eq_ok.mp made⟩
  · exact ⟨_, defaultGroup_fit _ _, (Except.ok.inj made).symm⟩

theorem product_proposed_le (positive : ∀ g ∈ r.sizes, 0 < g) (made : r.proposed max = .ok size) :
    size.product ≤ r.sizes.prod := by
  obtain ⟨group, fit, rfl⟩ := proposed_fit made
  have few : group.length ≤ 3 := fit.length_eq ▸ r.bounded.2
  rw [Dim3.product_eq, Dim3.prod_ofList few]
  exact fit.prod_le positive

/-! ## Settling the size in words -/

namespace Words

/-- A remainder, unless the divisor is zero. -/
def rem (a b : Nat) : Option Nat := if b = 0 then none else some (a % b)

/-- A quotient, unless the divisor is zero. -/
def div (a b : Nat) : Option Nat := if b = 0 then none else some (a / b)

def greatestDivisor (g : Nat) : Nat → Option Nat
  | 0 => some 1
  | n + 1 => do
    let left ← rem g (n + 1)
    if left = 0 then return n + 1 else greatestDivisor g n

def defaultGroup : Nat → List Nat → Option (List Nat)
  | _, [] => some []
  | budget, g :: rest => do
    let pick ← greatestDivisor g (min g budget)
    let left ← div budget pick
    let picks ← defaultGroup left rest
    return pick :: picks

/-- The remainder is not taken for a size of zero. -/
def indivisible? (dim : Nat) : List Nat → List Nat → Option (Option RangeFault)
  | l :: ls, g :: gs =>
    if l = 0 then return some (.indivisible l g dim)
    else do
      let left ← rem g l
      if left ≠ 0 then return some (.indivisible l g dim) else indivisible? (dim + 1) ls gs
  | _, _ => return none

def proposed (r : Range) (max : Nat) : Option (Except RangeFault Dim3) :=
  match r.group with
  | some sizes =>
    if sizes.length ≠ r.dims then return .error (.localCount sizes.length r.dims)
    else do
      match ← indivisible? 0 sizes r.sizes with
      | some fault => return .error fault
      | none => return .ok (.ofList sizes)
  | none => do
    let sizes ← defaultGroup (Nat.max max 1) r.sizes
    return .ok (.ofList sizes)

/-- The product of the sizes, which are multiplied before they are compared with the maximum. -/
def product (size : Dim3) : Option Nat := size.toList.foldlM checkedMul 1

/-- There is a result exactly if no operation overflows or divides by zero, the multiplications that
count the work-items apart: there an overflow is noticed, and the range refused. -/
def localSizes (r : Range) (max : Nat) : Option (Except RangeFault Dim3) :=
  match r.sizes.findIdx? (· == 0) with
  | some dim => return .error (.emptyDimension dim)
  | none =>
    if r.checkedWorkItems.isNone then return .error (.overflow r.text)
    else do
      match ← proposed r max with
      | .error fault => return .error fault
      | .ok size => do
        let items ← product size
        return if items > max then .error (.groupTooLarge items max) else .ok size

theorem greatestDivisor_eq (g n) : greatestDivisor g n = some (Range.greatestDivisor g n) := by
  induction n with
  | zero => rfl
  | succ n ih =>
    simp only [greatestDivisor, rem, Nat.succ_ne_zero, if_false, Option.bind_eq_bind,
      Option.bind_some, Range.greatestDivisor, ih]
    split <;> rfl

theorem defaultGroup_eq (budget sizes) :
    defaultGroup budget sizes = some (Range.defaultGroup budget sizes) := by
  induction sizes generalizing budget with
  | nil => rfl
  | cons g rest ih =>
    have divisor := Nat.ne_of_gt (greatestDivisor_pos g (min g budget))
    simp [defaultGroup, greatestDivisor_eq, div, divisor, ih, Range.defaultGroup]

theorem indivisible?_eq (dim group sizes) :
    indivisible? dim group sizes = some (Range.indivisible? dim group sizes) := by
  induction group generalizing dim sizes with
  | nil => rfl
  | cons l ls ih =>
    cases sizes with
    | nil => rfl
    | cons g gs =>
      by_cases zero : l = 0
      · simp [indivisible?, Range.indivisible?, zero]
      · by_cases divides : g % l = 0
        · simp [indivisible?, Range.indivisible?, rem, zero, divides, ih]
        · simp [indivisible?, Range.indivisible?, rem, zero, divides]

theorem proposed_eq (r max) : proposed r max = some (r.proposed max) := by
  unfold proposed Range.proposed
  cases r.group with
  | none => simp [defaultGroup_eq]
  | some sizes =>
    by_cases same : sizes.length = r.dims
    · cases first : Range.indivisible? 0 sizes r.sizes <;>
        simp [explicitGroup, indivisible?_eq, same, first]
    · simp [explicitGroup, same]

theorem product_eq (positive : ∀ l ∈ size.toList, 0 < l) (fits : size.product < indexLimit) :
    product size = some size.product := by
  rw [Dim3.product_eq] at fits ⊢
  rw [product, foldlM_checkedMul positive one_lt_indexLimit, Nat.one_mul, if_pos fits]

end Words

/-- What is multiplied has been found to divide sizes whose product an index word can hold. -/
theorem Words.localSizes_eq (r max) : Words.localSizes r max = some (r.localSizes max) := by
  rw [Range.localSizes_eq, Words.localSizes]
  cases empty : r.sizes.findIdx? (· == 0) with
  | some dim => rfl
  | none =>
    have positive := findIdx?_eq_none.mp empty
    have counted := checkedWorkItems_eq positive
    by_cases fits : r.sizes.prod < indexLimit
    · rw [if_pos fits] at counted
      simp only [counted, Option.isNone_some, Bool.false_eq_true, if_false, Words.proposed_eq]
      cases made : r.proposed max with
      | error fault => rfl
      | ok size =>
        obtain ⟨group, fit, rfl⟩ := proposed_fit made
        have parts := Dim3.forall_mem_ofList fit.positive Nat.one_pos
        have small := (product_proposed_le positive made).trans_lt fits
        simp [Words.product_eq parts small]
        rfl
    · rw [if_neg fits] at counted
      simp [counted]

/-! ## The sizes that are settled -/

/-- What a range has to satisfy for its work-groups to have a size. -/
structure Accepted (r : Range) (max : Nat) : Prop where
  positive : ∀ g ∈ r.sizes, 0 < g
  fits : r.sizes.prod < indexLimit
  divides : ∀ sizes, r.group = some sizes → Fit sizes r.sizes
  within : ∀ sizes, r.group = some sizes → sizes.prod ≤ max

theorem localSizes_explicit (fixed : r.group = some sizes) :
    r.localSizes max = .ok size ↔ r.Accepted max ∧ size = .ofList sizes := by
  have made : r.proposed max = r.explicitGroup sizes := by rw [proposed, fixed]
  rw [localSizes_eq_ok, made, explicitGroup_eq_ok]
  constructor
  · rintro ⟨positive, fits, ⟨fit, rfl⟩, within⟩
    have few : sizes.length ≤ 3 := fit.length_eq ▸ r.bounded.2
    rw [Dim3.product_eq, Dim3.prod_ofList few] at within
    refine ⟨⟨positive, fits, fun other same => ?_, fun other same => ?_⟩, rfl⟩ <;>
      obtain rfl := Option.some.inj (fixed.symm.trans same)
    · exact fit
    · exact within
  · rintro ⟨accepted, rfl⟩
    have fit := accepted.divides sizes fixed
    have few : sizes.length ≤ 3 := fit.length_eq ▸ r.bounded.2
    refine ⟨accepted.positive, accepted.fits, ⟨fit, rfl⟩, ?_⟩
    rw [Dim3.product_eq, Dim3.prod_ofList few]
    exact accepted.within sizes fixed

theorem localSizes_default (least : 1 ≤ max) (free : r.group = none) :
    r.localSizes max = .ok size ↔
      r.Accepted max ∧ size = .ofList (defaultGroup max r.sizes) := by
  have budget : Nat.max max 1 = max := Nat.max_eq_left least
  have made : r.proposed max = .ok (.ofList (defaultGroup max r.sizes)) := by
    rw [proposed, free, budget]
  rw [localSizes_eq_ok, made]
  constructor
  · rintro ⟨positive, fits, same, -⟩
    exact ⟨⟨positive, fits, by simp [free], by simp [free]⟩, (Except.ok.inj same).symm⟩
  · rintro ⟨accepted, rfl⟩
    have few : (defaultGroup max r.sizes).length ≤ 3 :=
      (defaultGroup_fit max r.sizes).length_eq ▸ r.bounded.2
    refine ⟨accepted.positive, accepted.fits, rfl, ?_⟩
    rw [Dim3.product_eq, Dim3.prod_ofList few]
    exact prod_defaultGroup_le accepted.positive least

/-- The default divides the range, is within the maximum, and is the greatest that does. -/
theorem defaultGroup_greatest (least : 1 ≤ max) (positive : ∀ g ∈ r.sizes, 0 < g) :
    let size := Dim3.ofList (defaultGroup max r.sizes)
    size.Divides r.globalSize ∧ size.product ≤ max ∧
      ∀ other : Dim3, other.Divides r.globalSize → other.product ≤ max →
        other.AtMost size := by
  have padded : ∀ g ∈ r.globalSize.toList, 0 < g := Dim3.forall_mem_ofList positive Nat.one_pos
  have chosen := toList_ofList_defaultGroup max r.bounded.2
  have fit := defaultGroup_fit max r.globalSize.toList
  refine ⟨?_, ?_, fun other divides within => ?_⟩
  · rw [Dim3.divides_iff, chosen]
    exact fit.imp fun _ _ both => both.2
  · rw [Dim3.product_eq, chosen]
    exact prod_defaultGroup_le padded least
  · rw [Dim3.divides_iff] at divides
    rw [Dim3.product_eq] at within
    rw [Dim3.AtMost, chosen]
    exact le_defaultGroup padded (.of_divides divides padded) within

/-- There is a size exactly if the range is acceptable, and no operation on the way overflows or
divides by zero. It is the one that the range fixes, or the greatest one that fits. -/
theorem group_size_settled (r : Range) {max : Nat} (least : 1 ≤ max) :
    Words.localSizes r max = some (r.localSizes max) ∧
      ((∃ size, r.localSizes max = .ok size) ↔ r.Accepted max) ∧
      ∀ size, r.localSizes max = .ok size →
        (∀ dim, r.dims ≤ dim → size.get dim = 1) ∧
        (∀ sizes, r.group = some sizes → size.toList.take r.dims = sizes) ∧
        (r.group = none →
          size.Divides r.globalSize ∧ size.product ≤ max ∧
            ∀ other : Dim3, other.Divides r.globalSize → other.product ≤ max →
              other.AtMost size) := by
  refine ⟨Words.localSizes_eq r max, ?_, fun size settled => ?_⟩
  · cases fixed : r.group with
    | none => simp [localSizes_default least fixed]
    | some sizes => simp [localSizes_explicit fixed]
  · cases fixed : r.group with
    | none =>
      obtain ⟨accepted, rfl⟩ := (localSizes_default least fixed).mp settled
      have same := (defaultGroup_fit max r.sizes).length_eq
      refine ⟨fun dim beyond => Dim3.get_ofList (same ▸ beyond), by simp, fun _ => ?_⟩
      exact defaultGroup_greatest least accepted.positive
    | some sizes =>
      obtain ⟨accepted, rfl⟩ := (localSizes_explicit fixed).mp settled
      have same : sizes.length = r.dims := (accepted.divides sizes fixed).length_eq
      refine ⟨fun dim beyond => Dim3.get_ofList (same ▸ beyond), ?_, by simp⟩
      rintro sizes' ⟨⟩
      rw [← same]
      exact Dim3.take_ofList (same ▸ r.bounded.2)

/-- Of the divisors of a plane of 12 by 10, groups of 12 by 2 come last within 32 items. -/
theorem group_size_settled_plane :
    1 ≤ 32 ∧ ∀ other : Dim3, other.Divides ⟨12, 10, 1⟩ → other.product ≤ 32 →
      other.AtMost ⟨12, 2, 1⟩ := by
  have settled : (⟨[12, 10], none, by decide⟩ : Range).localSizes 32 = .ok ⟨12, 2, 1⟩ := by rfl
  refine ⟨by decide, ?_⟩
  exact (((group_size_settled _ (by decide)).2.2 _ settled).2.2 rfl).2.2

end Range

end GridKernel
