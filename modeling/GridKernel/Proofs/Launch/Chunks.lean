import GridKernel.Proofs.Launch.GroupSize
import GridKernel.Proofs.Launch.Order
import Mathlib.Data.List.Nodup

/-!
# The chunks of a pool

A pool cuts the flat indices into chunks, at most one for each worker. Rounding up leaves nothing for
some of the last ones, and these begin past the end. Every flat index is in exactly one chunk, so
whatever way the workers take turns, the pool runs the work-items that a run in order does.
-/

namespace GridKernel.Launch

open List

variable {threads total : Nat}

/-! ## Chunks in words -/

namespace Words

open Range (indexLimit checkedMul)

def checkedAdd (a b : Nat) : Option Nat := if a + b < indexLimit then some (a + b) else none

/-- A quotient rounded up, unless an operation overflows or divides by zero. -/
def divUp (a b : Nat) : Option Nat := do
  let whole ← Range.Words.div a b
  let left ← Range.Words.rem a b
  if left = 0 then return whole else checkedAdd whole 1

def chunk (size total c : Nat) : Option Chunk := do
  let start ← checkedMul c size
  let next ← checkedAdd c 1
  let stop ← checkedMul next size
  return ⟨start, min stop total⟩

/-- There is a result exactly if no operation overflows or divides by zero. -/
def chunks (threads total : Nat) : Option (List Chunk) := do
  let size ← divUp total (chunkCount threads total)
  (List.range (chunkCount threads total)).mapM (chunk size total)

theorem divUp_eq (positive : 0 < b) (fits : a < indexLimit) :
    divUp a b = some ((a + b - 1) / b) := by
  have parts := Nat.div_add_mod' a b
  have rest := Nat.mod_lt a positive
  have divisor := Nat.ne_of_gt positive
  by_cases even : a % b = 0
  · have up : (a + b - 1) / b = a / b :=
      Nat.div_eq_of_lt_le (by omega) (by rw [Nat.succ_mul]; omega)
    simp [divUp, Range.Words.div, Range.Words.rem, divisor, even, up]
  · have up : (a + b - 1) / b = a / b + 1 :=
      Nat.div_eq_of_lt_le (by rw [Nat.succ_mul]; omega) (by rw [Nat.succ_mul, Nat.succ_mul]; omega)
    have small : a / b + 1 < indexLimit := by
      have proper : b ≠ 1 := fun one => even (one ▸ Nat.mod_one a)
      have less : a / b < a := Nat.div_lt_self (by omega) (by omega)
      omega
    simp [divUp, Range.Words.div, Range.Words.rem, divisor, even, up, checkedAdd, small]

theorem chunk_eq (next : c + 1 < indexLimit) (stop : (c + 1) * size < indexLimit) :
    chunk size total c = some ⟨c * size, min ((c + 1) * size) total⟩ := by
  have start : c * size < indexLimit :=
    (Nat.mul_le_mul_right size (Nat.le_succ c)).trans_lt stop
  simp [chunk, checkedMul, checkedAdd, start, next, stop]

end Words

theorem chunkCount_eq (items : 1 ≤ total) (workers : 1 ≤ threads) :
    chunkCount threads total = min threads total := by
  unfold chunkCount
  omega

/-- Rounding up adds less than one work-item for each chunk. -/
theorem chunks_le (threads total) :
    chunkCount threads total * chunkSize threads total ≤ total + chunkCount threads total - 1 :=
  Nat.mul_div_le _ _

theorem Words.chunks_eq (items : 1 ≤ total) (workers : 1 ≤ threads)
    (fits : total + threads < Range.indexLimit) :
    Words.chunks threads total = some (Launch.chunks threads total) := by
  have count := chunkCount_eq items workers
  have bound := chunks_le threads total
  have size : divUp total (chunkCount threads total) = some (chunkSize threads total) :=
    divUp_eq (by omega) (by omega)
  have each : ∀ cs : List Nat, (∀ c ∈ cs, c + 1 ≤ chunkCount threads total) →
      cs.mapM (chunk (chunkSize threads total) total) =
        some (cs.map fun c => ⟨c * chunkSize threads total,
          min ((c + 1) * chunkSize threads total) total⟩) := by
    intro cs
    induction cs with
    | nil => exact fun _ => rfl
    | cons c rest ih =>
      intro below
      obtain ⟨first, others⟩ := forall_mem_cons.mp below
      have stop := (Nat.mul_le_mul_right (chunkSize threads total) first).trans bound
      rw [mapM_cons, chunk_eq (by omega) (by omega), ih others]
      rfl
  rw [Words.chunks, size]
  exact each _ fun c => mem_range.mp

/-! ## A partition -/

/-- The second chunk begins where the first one stops; where that is the end, it may begin later. -/
def Chunk.Meets (total : Nat) (a b : Chunk) : Prop :=
  b.start = a.stop ∨ a.stop = total ∧ total ≤ b.start

theorem length_chunks (threads total) :
    (chunks threads total).length = chunkCount threads total := by
  simp [chunks]

theorem getElem_chunks (inside : c < (chunks threads total).length) :
    (chunks threads total)[c] =
      ⟨c * chunkSize threads total, min ((c + 1) * chunkSize threads total) total⟩ := by
  simp [chunks]

theorem chunks_meet (threads total) : (chunks threads total).IsChain (Chunk.Meets total) := by
  rw [isChain_iff_getElem]
  intro c inside
  rw [getElem_chunks, getElem_chunks, Chunk.Meets]
  dsimp only
  omega

theorem chunks_disjoint (threads total) :
    (chunks threads total).Pairwise fun a b => a.indices.Disjoint b.indices :=
  (nodup_flatMap.mp (chunks_indices threads total ▸ nodup_range)).2

/-- A flat index is in one chunk. -/
theorem chunks_hold (threads total flat) :
    flat < total ↔
      ∃! c : Nat, ∃ chunk : Chunk, (chunks threads total)[c]? = some chunk ∧ flat ∈ chunk.indices := by
  rw [← mem_range, ← chunks_indices threads total, mem_flatMap]
  constructor
  · rintro ⟨chunk, member, held⟩
    obtain ⟨c, found⟩ := mem_iff_getElem?.mp member
    refine ⟨c, ⟨chunk, found, held⟩, ?_⟩
    rintro c' ⟨chunk', found', held'⟩
    by_contra other
    obtain ⟨_, rfl⟩ := List.getElem?_eq_some_iff.mp found
    obtain ⟨_, rfl⟩ := List.getElem?_eq_some_iff.mp found'
    have apart := pairwise_iff_getElem.mp (chunks_disjoint threads total)
    rcases Nat.lt_or_gt_of_ne other with before | after
    · exact apart _ _ _ _ before held' held
    · exact apart _ _ _ _ after held held'
  · rintro ⟨c, ⟨chunk, found, held⟩, -⟩
    exact ⟨chunk, mem_of_getElem? found, held⟩

/-! ## What a pool runs -/

/-- An order in which workers take turns, each of them going through its own queue. -/
inductive Turns : List (List Nat) → List Nat → Prop
  | done {queues : List (List Nat)} (finished : ∀ queue ∈ queues, queue = []) : Turns queues []
  | next {before after : List (List Nat)} {flat : Nat} {queue order : List Nat}
      (rest : Turns (before ++ queue :: after) order) :
      Turns (before ++ (flat :: queue) :: after) (flat :: order)

theorem Turns.perm (h : Turns queues order) : order.Perm queues.flatten := by
  induction h with
  | done finished => rw [flatten_eq_nil_iff.mpr finished]
  | @next before after flat queue order rest ih =>
    rw [flatten_append, flatten_cons] at ih ⊢
    exact (ih.cons flat).trans perm_middle.symm

/-- One queue after the other. -/
theorem Turns.flatten (finished : ∀ queue ∈ before, queue = []) (queues) :
    Turns (before ++ queues) queues.flatten := by
  induction queues generalizing before with
  | nil => exact .done (by simpa using finished)
  | cons queue rest ih =>
    induction queue with
    | nil =>
      have emptied : ∀ queue ∈ before ++ [[]], queue = [] := by
        intro queue member
        rcases mem_append.mp member with earlier | last
        · exact finished queue earlier
        · exact mem_singleton.mp last
      simpa using ih emptied
    | cons flat queue ih => exact .next ih

/-- The work-items that a run in an order starts. -/
def started (l : Launch) (steps : Nat) : List Nat → Memory → List Nat
  | [], _ => []
  | flat :: rest, m =>
    match l.runItem steps flat m with
    | (m, none) => flat :: started l steps rest m
    | _ => [flat]

variable {l : Launch}

theorem started_begins (order m) : l.started steps order m <+: order := by
  induction order generalizing m with
  | nil => exact nil_prefix
  | cons flat rest ih =>
    unfold started
    split
    · exact (prefix_cons_inj flat).mpr (ih _)
    · exact ⟨rest, rfl⟩

theorem started_of_completes (completes : (l.runOrder steps order m).2 = none) :
    l.started steps order m = order := by
  induction order generalizing m with
  | nil => rfl
  | cons flat rest ih =>
    unfold runOrder at completes
    unfold started
    generalize l.runItem steps flat m = ran at completes ⊢
    obtain ⟨m', fault⟩ := ran
    cases fault with
    | none => exact congrArg _ (ih completes)
    | some fault => cases completes

/-- For a number of work-items and of workers that an index word can hold together, the chunks of a
pool are computed without overflow, there are no more of them than workers or work-items, they do not
overlap, each begins where the one before it stops, and they hold the flat indices of the work-items
and nothing else. So whatever way the workers take turns, none of them runs a work-item a second
time, and if all of them finish, they have run the work-items that the run in order is made of. -/
theorem chunks_partition_work (items : 1 ≤ total) (workers : 1 ≤ threads)
    (fits : total + threads < Range.indexLimit) :
    let cs := chunks threads total
    Words.chunks threads total = some cs ∧ cs.length ≤ min threads total ∧
      cs.Pairwise (fun a b => a.indices.Disjoint b.indices) ∧ cs.IsChain (Chunk.Meets total) ∧
      (∀ flat, flat < total ↔ ∃! c : Nat, ∃ chunk : Chunk, cs[c]? = some chunk ∧ flat ∈ chunk.indices) ∧
      ∀ (l : Launch) (steps : Nat) (m : Memory), l.range.workItems = total →
        l.runSequential steps m = l.runOrder steps (List.range total) m ∧
        (∃ order, Turns (cs.map Chunk.indices) order ∧
          l.runPooled .inOrder steps threads m = l.runOrder steps order m) ∧
        ∀ order, Turns (cs.map Chunk.indices) order →
          l.started steps order m <+: order ∧ order.Nodup ∧
            ((l.runOrder steps order m).2 = none →
              (l.started steps order m).Perm (List.range total)) := by
  refine ⟨Words.chunks_eq items workers fits, ?_, chunks_disjoint threads total,
    chunks_meet threads total, chunks_hold threads total, ?_⟩
  · rw [length_chunks, chunkCount_eq items workers]
  rintro l steps m rfl
  have all : ((chunks threads l.range.workItems).map Chunk.indices).flatten =
      List.range l.range.workItems := by
    rw [← flatMap_def, chunks_indices]
  refine ⟨runSequential_eq m, ⟨_, Turns.flatten (forall_mem_nil _) _, ?_⟩,
    fun order turns => ⟨started_begins order m, ?_, fun completes => ?_⟩⟩
  · rw [← flatMap_def]
    exact runChunks_eq _ m
  · exact (all ▸ turns.perm).nodup_iff.mpr nodup_range
  · rw [started_of_completes completes]
    exact all ▸ turns.perm

/-- Four workers for five work-items: the last one has nothing to do, and its chunk begins past the
end. -/
theorem short_chunks_partition :
    chunks 4 5 = [⟨0, 2⟩, ⟨2, 4⟩, ⟨4, 5⟩, ⟨6, 5⟩] ∧ 5 + 4 < Range.indexLimit ∧
      (chunks 4 5).Pairwise (fun a b => a.indices.Disjoint b.indices) ∧
      ∃! c : Nat, ∃ chunk : Chunk, (chunks 4 5)[c]? = some chunk ∧ 4 ∈ chunk.indices := by
  obtain ⟨-, -, disjoint, -, held, -⟩ :=
    chunks_partition_work (by decide : 1 ≤ 5) (by decide : 1 ≤ 4) (by decide)
  exact ⟨by decide, by decide, disjoint, (held 4).mp (by decide)⟩

end GridKernel.Launch
