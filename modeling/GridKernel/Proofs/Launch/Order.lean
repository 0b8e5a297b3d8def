import GridKernel.Launch.Run

/-!
# Orders of work-items

A run in the order of the flat indices and a run in chunks are both runs of work-items in some
order. The chunks of a pool hold every flat index once.
-/

namespace GridKernel.Launch

open List

variable {l : Launch} {steps : Nat}

/-- Runs work-items in an order, up to the first one that stops early. -/
def runOrder (l : Launch) (steps : Nat) : List Nat → Memory → Memory × Option RunFault
  | [], m => (m, none)
  | flat :: rest, m =>
    match l.runItem steps flat m with
    | (m, none) => runOrder l steps rest m
    | stopped => stopped

theorem runFrom_eq (flat count m) :
    l.runFrom steps flat count m = l.runOrder steps (List.range' flat count) m := by
  induction count generalizing flat m with
  | zero => rfl
  | succ count ih =>
    rw [range'_succ, runFrom, runOrder]
    obtain ⟨m', fault⟩ := l.runItem steps flat m
    cases fault with
    | none => exact ih (flat + 1) m'
    | some fault => rfl

theorem runOrder_append (first second : List Nat) (m : Memory) :
    l.runOrder steps (first ++ second) m =
      match l.runOrder steps first m with
      | (m, none) => l.runOrder steps second m
      | stopped => stopped := by
  induction first generalizing m with
  | nil => rfl
  | cons flat rest ih =>
    rw [cons_append, runOrder, runOrder]
    obtain ⟨m', fault⟩ := l.runItem steps flat m
    cases fault with
    | none => exact ih m'
    | some fault => rfl

/-! ## Chunks -/

/-- The flat indices of a chunk. -/
def Chunk.indices (c : Chunk) : List Nat := List.range' c.start (c.stop - c.start)

theorem runChunks_eq (cs m) :
    l.runChunks steps cs m = l.runOrder steps (cs.flatMap Chunk.indices) m := by
  induction cs generalizing m with
  | nil => rfl
  | cons c rest ih =>
    rw [flatMap_cons, runOrder_append, runChunks, runChunk, runFrom_eq]
    change (match l.runOrder steps c.indices m with | (m, none) => _ | stopped => _) = _
    obtain ⟨m', fault⟩ := l.runOrder steps c.indices m
    cases fault with
    | none => exact ih m'
    | some fault => rfl

/-- A chunk continues where the chunks before it end. -/
theorem range_append_indices (k size total) :
    List.range (min (k * size) total) ++
        Chunk.indices ⟨k * size, min ((k + 1) * size) total⟩ =
      List.range (min ((k + 1) * size) total) := by
  rw [range_eq_range', range_eq_range', Chunk.indices, Nat.succ_mul]
  dsimp only
  by_cases within : k * size ≤ total
  · rw [Nat.min_eq_left within]
    have start : k * size = 0 + k * size := (Nat.zero_add _).symm
    conv => lhs; rhs; rw [start]
    rw [range'_append_1]
    congr 1
    omega
  · have past : min (k * size + size) total - k * size = 0 := by omega
    have same : min (k * size) total = min (k * size + size) total := by omega
    rw [past, same]
    exact append_nil _

theorem flatMap_indices (k size total) :
    ((List.range k).map fun c => Chunk.mk (c * size) (min ((c + 1) * size) total)).flatMap
        Chunk.indices = List.range (min (k * size) total) := by
  induction k with
  | zero => simp
  | succ k ih =>
    rw [range_succ, map_append, flatMap_append, ih]
    simpa using range_append_indices k size total

/-- A chunk for each worker is enough for all work-items. -/
theorem total_le_chunks (threads total) :
    total ≤ chunkCount threads total * chunkSize threads total := by
  have some : 0 < chunkCount threads total := by
    unfold chunkCount
    omega
  unfold chunkSize
  dsimp only
  generalize chunkCount threads total = count at some ⊢
  have parts := Nat.div_add_mod (total + count - 1) count
  have rest := Nat.mod_lt (total + count - 1) some
  omega

/-- The chunks of a pool, one after the other, hold the flat indices in their order. -/
theorem chunks_indices (threads total) :
    (chunks threads total).flatMap Chunk.indices = List.range total := by
  unfold chunks
  dsimp only
  rw [flatMap_indices, Nat.min_eq_right (total_le_chunks threads total)]

theorem runSequential_eq (m) :
    l.runSequential steps m = l.runOrder steps (List.range l.range.workItems) m := by
  rw [runSequential, runFrom_eq, range_eq_range']

end GridKernel.Launch
