import GridKernel.Proofs.Launch.GroupSize
import GridKernel.Proofs.Launch.Order
import Mathlib.Data.Set.Function

/-!
# The places of work-items

The flat indices of a range are the points of its box, in the order in which the first dimension
varies fastest. A point is in a work-group and has a place in it, and the answers that a work-item
gets say which: over all work-items every place of every group comes up once.
-/

namespace GridKernel

namespace Dim3

/-- Each coordinate is below the size of its dimension. -/
def Inside (p size : Dim3) : Prop := ∀ dim : Fin 3, p.get dim < size.get dim

/-- The order in which the first dimension varies fastest. -/
def Before (p q : Dim3) : Prop :=
  p.z < q.z ∨ p.z = q.z ∧ (p.y < q.y ∨ p.y = q.y ∧ p.x < q.x)

/-- The number of points of a box that come before a point. -/
def rank (size p : Dim3) : Nat := p.x + size.x * (p.y + size.y * p.z)

variable {p size : Dim3}

theorem inside_iff : p.Inside size ↔ p.x < size.x ∧ p.y < size.y ∧ p.z < size.z := by
  simp [Inside, Fin.forall_fin_succ, get]

theorem exists_get (f : Fin 3 → Nat) : ∃ p : Dim3, ∀ dim : Fin 3, p.get dim = f dim :=
  ⟨⟨f 0, f 1, f 2⟩, by simp [Fin.forall_fin_succ, get]⟩

theorem ext_get (same : ∀ dim : Fin 3, p.get dim = q.get dim) : p = q := by
  obtain ⟨x, y, z⟩ := p
  obtain ⟨x', y', z'⟩ := q
  obtain rfl : x = x' := same 0
  obtain rfl : y = y' := same 1
  obtain rfl : z = z' := same 2
  rfl

/-- A step in the next dimension outweighs every step in this one. -/
theorem carry {n a b i j : Nat} (inside : a < n) (less : i < j) : a + n * i < b + n * j := by
  have more := Nat.mul_le_mul_left n less
  rw [Nat.mul_succ] at more
  omega

theorem rank_lt_product (inside : p.Inside size) : size.rank p < size.product := by
  obtain ⟨x, y, z⟩ := inside_iff.mp inside
  have plane : p.y + size.y * p.z < size.y * size.z := by simpa using carry (b := 0) y z
  simpa [rank, product, Nat.mul_assoc] using carry (b := 0) x plane

theorem Before.rank_lt (inside : p.Inside size) (before : p.Before q) :
    size.rank p < size.rank q := by
  obtain ⟨x, y, -⟩ := inside_iff.mp inside
  rcases before with last | ⟨last, second | ⟨second, first⟩⟩
  · exact carry x (carry y last)
  · exact carry x (by rw [last]; exact Nat.add_lt_add_right second _)
  · rw [rank, rank, last, second]
    exact Nat.add_lt_add_right first _

theorem before_of_rank_lt (inside : q.Inside size) (less : size.rank p < size.rank q) :
    p.Before q := by
  by_contra other
  have total : p = q ∨ q.Before p := by
    obtain ⟨x, y, z⟩ := p
    obtain ⟨x', y', z'⟩ := q
    simp only [Before, mk.injEq] at other ⊢
    omega
  rcases total with rfl | before
  · exact Nat.lt_irrefl _ less
  · exact Nat.lt_asymm less (before.rank_lt inside)

end Dim3

namespace Range

variable {r : Range} {flat : Nat}

/-! ## Flat indices -/

theorem rank_coords (r : Range) (flat) : r.globalSize.rank (r.coords flat) = flat := by
  simp only [Dim3.rank, coords, ← Nat.div_div_eq_div_mul]
  rw [Nat.mod_add_div, Nat.mod_add_div]

theorem coords_rank (inside : p.Inside r.globalSize) : r.coords (r.globalSize.rank p) = p := by
  obtain ⟨x, y, -⟩ := Dim3.inside_iff.mp inside
  have row : r.globalSize.rank p / r.globalSize.x = p.y + r.globalSize.y * p.z := by
    rw [Dim3.rank, Nat.add_mul_div_left _ _ (by omega), Nat.div_eq_of_lt x, Nat.zero_add]
  simp only [coords, ← Nat.div_div_eq_div_mul, row]
  rw [Nat.add_mul_div_left _ _ (by omega), Nat.div_eq_of_lt y, Nat.zero_add, Nat.add_mul_mod_self_left,
    Nat.mod_eq_of_lt y, Dim3.rank, Nat.add_mul_mod_self_left, Nat.mod_eq_of_lt x]

theorem coords_inside (small : flat < r.globalSize.product) :
    (r.coords flat).Inside r.globalSize := by
  rw [Dim3.product] at small
  have xy : 0 < r.globalSize.x * r.globalSize.y := Nat.pos_of_mul_pos_right (Nat.zero_lt_of_lt small)
  refine Dim3.inside_iff.mpr ⟨Nat.mod_lt _ (Nat.pos_of_mul_pos_right xy),
    Nat.mod_lt _ (Nat.pos_of_mul_pos_left xy), ?_⟩
  exact Nat.div_lt_of_lt_mul small

namespace Words

/-- The coordinates, unless an operation overflows or divides by zero. -/
def coords (r : Range) (flat : Nat) : Option Dim3 := do
  let x ← rem flat r.globalSize.x
  let row ← div flat r.globalSize.x
  let y ← rem row r.globalSize.y
  let plane ← checkedMul r.globalSize.x r.globalSize.y
  let z ← div flat plane
  return ⟨x, y, z⟩

/-- The answer in one of the three dimensions, unless it is divided by zero. -/
def answer (w : WorkItem) (func : Builtin) (dim : Nat) : Option Nat :=
  match func with
  | .localId => rem (w.globalId.get dim) (w.localSize.get dim)
  | .groupId => div (w.globalId.get dim) (w.localSize.get dim)
  | .numGroups => div (w.globalSize.get dim) (w.localSize.get dim)
  | func => some (w.answer func dim)

theorem answer_eq (positive : 0 < w.localSize.get dim) (func) :
    answer w func dim = some (w.answer func dim) := by
  have divisor := Nat.ne_of_gt positive
  cases func <;> simp [answer, WorkItem.answer, rem, div, divisor]

end Words

/-! ## Ranges whose work-groups have a size -/

/-- What is known of a range and the size of its work-groups once that is settled. -/
structure Settled (r : Range) (size : Dim3) : Prop where
  items : r.workItems = r.globalSize.product
  fits : r.globalSize.product < indexLimit
  positive : ∀ dim : Fin 3, 0 < r.globalSize.get dim
  group : ∀ dim : Fin 3, 0 < size.get dim ∧ size.get dim ∣ r.globalSize.get dim

theorem Fit.getD {group sizes : List Nat} (fit : Fit group sizes) (i) :
    0 < group.getD i 1 ∧ group.getD i 1 ∣ sizes.getD i 1 := by
  induction fit generalizing i with
  | nil => simp
  | cons both rest ih =>
    cases i with
    | zero => simpa using both
    | succ i => simpa using ih i

theorem settled_of_localSizes {max : Nat} {size : Dim3} (h : r.localSizes max = .ok size) :
    Settled r size := by
  obtain ⟨positive, fits, made, -⟩ := localSizes_eq_ok.mp h
  obtain ⟨group, fit, rfl⟩ := proposed_fit made
  have product : r.globalSize.product = r.sizes.prod := by
    rw [Dim3.product_eq, globalSize, Dim3.prod_ofList r.bounded.2]
  refine ⟨?_, product ▸ fits, ?_, ?_⟩
  · rw [workItems, checkedWorkItems_eq positive, if_pos fits, product]
    rfl
  · have padded := Dim3.forall_mem_ofList positive Nat.one_pos
    simpa [Fin.forall_fin_succ, Dim3.get, Dim3.toList, globalSize] using padded
  · simpa [Fin.forall_fin_succ, Dim3.get, globalSize, Dim3.ofList] using
      ⟨fit.getD 0, fit.getD 1, fit.getD 2⟩

namespace Settled

variable (h : Settled r size)
include h

theorem words_coords (flat) : Words.coords r flat = some (r.coords flat) := by
  obtain ⟨x, y, z⟩ : 0 < r.globalSize.x ∧ 0 < r.globalSize.y ∧ 0 < r.globalSize.z :=
    ⟨h.positive 0, h.positive 1, h.positive 2⟩
  have plane : r.globalSize.x * r.globalSize.y < indexLimit :=
    (Nat.le_mul_of_pos_right _ z).trans_lt h.fits
  have some : r.globalSize.x * r.globalSize.y ≠ 0 := Nat.ne_of_gt (Nat.mul_pos x y)
  simp [Words.coords, Words.rem, Words.div, checkedMul, coords, Nat.ne_of_gt x, Nat.ne_of_gt y, plane,
    some]

theorem coords_bijOn :
    Set.BijOn r.coords (Set.Iio r.workItems) {p | p.Inside r.globalSize} := by
  rw [h.items]
  refine ⟨fun flat small => coords_inside small, fun i _ j _ same => ?_, fun p inside => ?_⟩
  · rw [← r.rank_coords i, same, r.rank_coords]
  · exact ⟨_, Dim3.rank_lt_product inside, coords_rank inside⟩

theorem coords_before (small : j < r.workItems) (less : i < j) :
    (r.coords i).Before (r.coords j) := by
  refine Dim3.before_of_rank_lt (coords_inside (h.items ▸ small)) ?_
  rwa [r.rank_coords, r.rank_coords]

end Settled

end Range

/-! ## Answers -/

namespace WorkItem

/-- The number that a work-item is given in one of the three dimensions. -/
def ask (w : WorkItem) (func : Builtin) (dim : Fin 3) : Int := (w.query func (.ofNat dim)).toInt

/-- The answers place the work-item in a group, and the groups make up the range. -/
structure Placed (w : WorkItem) (dim : Fin 3) : Prop where
  split : w.ask .globalId dim = w.ask .groupId dim * w.ask .localSize dim + w.ask .localId dim
  place : 0 ≤ w.ask .localId dim ∧ w.ask .localId dim < w.ask .localSize dim
  group : 0 ≤ w.ask .groupId dim ∧ w.ask .groupId dim < w.ask .numGroups dim
  groups : w.ask .numGroups dim * w.ask .localSize dim = w.ask .globalSize dim

/-- The group of a work-item and its place there. -/
def placement (w : WorkItem) : (Fin 3 → Int) × (Fin 3 → Int) := (w.ask .groupId, w.ask .localId)

/-- All groups and all places in them. -/
def placements (w : WorkItem) : Set ((Fin 3 → Int) × (Fin 3 → Int)) :=
  {p | ∀ dim, (0 ≤ p.1 dim ∧ p.1 dim < w.ask .numGroups dim) ∧
    0 ≤ p.2 dim ∧ p.2 dim < w.ask .localSize dim}

theorem ask_eq {w : WorkItem} {func : Builtin} {dim : Fin 3} (small : w.answer func dim < 2 ^ 31) :
    w.ask func dim = w.answer func dim := by
  have asked : w.query func (.ofNat dim) = .ofNat (w.answer func dim) := by
    match dim with
    | 0 | 1 | 2 => rfl
  rw [ask, asked, Int32.toInt_ofNat_of_lt small]

end WorkItem

namespace Range.Settled

variable {r : Range} {flat : Nat} (h : Settled r size)
  (short : ∀ dim : Fin 3, r.globalSize.get dim < 2 ^ 31) (passId : Int32)
include h short

/-- What a work-item is told, in terms of its point. -/
theorem answers (inRange : flat < r.workItems) (dim : Fin 3) :
    let w := WorkItem.ofFlat r size passId flat
    let p := (r.coords flat).get dim
    w.ask .globalId dim = p ∧ w.ask .groupId dim = (p / size.get dim : Nat) ∧
      w.ask .localId dim = (p % size.get dim : Nat) ∧ w.ask .localSize dim = size.get dim ∧
      w.ask .globalSize dim = r.globalSize.get dim ∧
      w.ask .numGroups dim = (r.globalSize.get dim / size.get dim : Nat) := by
  have point : (r.coords flat).get dim < 2 ^ 31 :=
    (coords_inside (h.items ▸ inRange) dim).trans (short dim)
  have group : size.get dim < 2 ^ 31 :=
    (Nat.le_of_dvd (h.positive dim) (h.group dim).2).trans_lt (short dim)
  exact ⟨WorkItem.ask_eq point, WorkItem.ask_eq ((Nat.div_le_self _ _).trans_lt point),
    WorkItem.ask_eq ((Nat.mod_le _ _).trans_lt point), WorkItem.ask_eq group,
    WorkItem.ask_eq (short dim), WorkItem.ask_eq ((Nat.div_le_self _ _).trans_lt (short dim))⟩

theorem placed (inRange : flat < r.workItems) (dim : Fin 3) :
    (WorkItem.ofFlat r size passId flat).Placed dim := by
  obtain ⟨point, group, place, groupSize, global, groups⟩ := h.answers short passId inRange dim
  obtain ⟨positive, divides⟩ := h.group dim
  have inside := coords_inside (h.items ▸ inRange) dim
  constructor
  · rw [point, group, place, groupSize]
    exact_mod_cast (Nat.div_add_mod' _ _).symm
  · rw [place, groupSize]
    exact ⟨Int.natCast_nonneg _, Int.ofNat_lt.mpr (Nat.mod_lt _ positive)⟩
  · rw [group, groups]
    refine ⟨Int.natCast_nonneg _, Int.ofNat_lt.mpr ?_⟩
    rw [Nat.div_lt_iff_lt_mul positive, Nat.div_mul_cancel divides]
    exact inside
  · rw [groups, groupSize, global]
    exact_mod_cast Nat.div_mul_cancel divides

theorem placement_injOn :
    Set.InjOn (fun flat => (WorkItem.ofFlat r size passId flat).placement) (Set.Iio r.workItems) := by
  intro i small j small' same
  obtain ⟨groups, places⟩ := Prod.mk.inj same
  -- the group and the place give the point back
  refine h.coords_bijOn.injOn small small' (Dim3.ext_get fun dim => ?_)
  have group := congrFun groups dim
  have place := congrFun places dim
  obtain ⟨-, group₁, place₁, -⟩ := h.answers short passId small dim
  obtain ⟨-, group₂, place₂, -⟩ := h.answers short passId small' dim
  rw [group₁, group₂, Int.ofNat_inj] at group
  rw [place₁, place₂, Int.ofNat_inj] at place
  rw [← Nat.div_add_mod ((r.coords i).get dim) (size.get dim), group, place, Nat.div_add_mod]

theorem placement_surjOn :
    Set.SurjOn (fun flat => (WorkItem.ofFlat r size passId flat).placement) (Set.Iio r.workItems)
      (WorkItem.ofFlat r size passId 0).placements := by
  rintro ⟨group, place⟩ inside
  have first : 0 < r.workItems := by
    rw [h.items]
    exact Nat.mul_pos (Nat.mul_pos (h.positive 0) (h.positive 1)) (h.positive 2)
  obtain ⟨p, coordinate⟩ := Dim3.exists_get fun dim => (group dim).toNat * size.get dim + (place dim).toNat
  have bounds : ∀ dim, (0 ≤ group dim ∧ (group dim).toNat < r.globalSize.get dim / size.get dim) ∧
      0 ≤ place dim ∧ (place dim).toNat < size.get dim := by
    intro dim
    obtain ⟨-, -, -, groupSize, -, groups⟩ := h.answers short passId first dim
    have both := inside dim
    rw [groupSize, groups] at both
    dsimp only at both
    omega
  have within : p.Inside r.globalSize := by
    intro dim
    obtain ⟨⟨-, few⟩, -, small⟩ := bounds dim
    obtain ⟨-, divides⟩ := h.group dim
    have whole := Nat.div_mul_cancel divides
    have next := Nat.mul_le_mul_right (size.get dim) few
    rw [Nat.succ_mul, whole] at next
    rw [coordinate dim]
    omega
  obtain ⟨flat, small, rfl⟩ := h.coords_bijOn.surjOn within
  refine ⟨flat, small, Prod.ext (funext fun dim => ?_) (funext fun dim => ?_)⟩ <;>
    obtain ⟨-, groupAt, placeAt, -⟩ := h.answers short passId small dim <;>
    obtain ⟨⟨known, -⟩, known', inGroup⟩ := bounds dim
  · refine groupAt.trans ?_
    rw [coordinate dim, Nat.mul_comm, Nat.mul_add_div (h.group dim).1, Nat.div_eq_of_lt inGroup,
      Nat.add_zero, Int.toNat_of_nonneg known]
  · refine placeAt.trans ?_
    rw [coordinate dim, Nat.mul_comm, Nat.mul_add_mod, Nat.mod_eq_of_lt inGroup,
      Int.toNat_of_nonneg known']

end Range.Settled

/-- Every point of the box of a range is that of one work-item, in an order in which the first
dimension varies fastest, and no operation on the way overflows or divides by zero. If the sizes are
below 2^31, the answers that work-items get place each of them in a group, and every place of every
group is that of one work-item. -/
theorem Launch.work_items_cover_range {l : Launch} {max : Nat}
    (settled : l.range.localSizes max = .ok l.localSize) :
    let r := l.range
    let item := fun flat => (l.context flat).item
    (∀ flat < r.workItems, Range.Words.coords r flat = some (item flat).globalId ∧
      ∀ func (dim : Fin 3), Range.Words.answer (item flat) func dim =
        some ((item flat).answer func dim)) ∧
    Set.BijOn (fun flat => (item flat).globalId) (Set.Iio r.workItems)
      {p | p.Inside r.globalSize} ∧
    (∀ i j, i < j → j < r.workItems → (item i).globalId.Before (item j).globalId) ∧
    (∀ steps m, l.runSequential steps m = l.runOrder steps (List.range r.workItems) m) ∧
    ((∀ g ∈ r.sizes, g < 2 ^ 31) →
      (∀ flat < r.workItems, ∀ dim : Fin 3, (item flat).Placed dim ∧
        (item flat).ask .globalId dim = (item flat).globalId.get dim ∧
        (item flat).ask .globalSize dim = r.globalSize.get dim ∧
        (item flat).ask .localSize dim = l.localSize.get dim) ∧
      Set.BijOn (fun flat => (item flat).placement) (Set.Iio r.workItems) (item 0).placements) := by
  have h := Range.settled_of_localSizes settled
  refine ⟨fun flat _ => ⟨h.words_coords flat, fun func dim => ?_⟩, h.coords_bijOn,
    fun i j less small => h.coords_before small less, fun _ => Launch.runSequential_eq,
    fun small => ?_⟩
  · exact Range.Words.answer_eq (h.group dim).1 func
  · have short : ∀ dim : Fin 3, l.range.globalSize.get dim < 2 ^ 31 := by
      have padded := Dim3.forall_mem_ofList (p := (· < 2 ^ 31)) small (by decide)
      simpa [Fin.forall_fin_succ, Dim3.get, Dim3.toList, Range.globalSize] using padded
    refine ⟨fun flat inRange dim => ?_, fun flat inRange dim => ?_,
      h.placement_injOn short l.passId, h.placement_surjOn short l.passId⟩
    · obtain ⟨point, -, -, group, global, -⟩ := h.answers short l.passId inRange dim
      exact ⟨h.placed short l.passId inRange dim, point, global, group⟩
    · have placed := h.placed short l.passId inRange dim
      exact ⟨placed.group, placed.place⟩

def planeLaunch : Launch where
  descriptor := ⟨"Plane", [], { name := "run", body := [] }, []⟩
  bound := []
  range := ⟨[6, 4], some [3, 2], by decide⟩
  localSize := ⟨3, 2, 1⟩
  passId := 0

/-- A plane of 6 by 4 in groups of 3 by 2. -/
theorem planeLaunch_covered :
    planeLaunch.range.localSizes 8 = .ok planeLaunch.localSize ∧
      (∀ g ∈ planeLaunch.range.sizes, g < 2 ^ 31) ∧ planeLaunch.range.workItems = 24 ∧
      (planeLaunch.context 10).item.globalId = ⟨4, 1, 0⟩ ∧ (planeLaunch.context 10).item.Placed 0 ∧
      Set.BijOn (fun flat => (planeLaunch.context flat).item.placement) (Set.Iio 24)
        (planeLaunch.context 0).item.placements := by
  have settled : planeLaunch.range.localSizes 8 = .ok planeLaunch.localSize := by rfl
  have small : ∀ g ∈ planeLaunch.range.sizes, g < 2 ^ 31 := by decide
  obtain ⟨-, -, -, -, answers⟩ := Launch.work_items_cover_range settled
  obtain ⟨placed, once⟩ := answers small
  exact ⟨settled, small, rfl, rfl, (placed 10 (by decide) 0).1, once⟩

end GridKernel
