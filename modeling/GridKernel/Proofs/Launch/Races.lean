import GridKernel.Proofs.Eval.Mirror
import GridKernel.Proofs.Launch.Pools

/-!
# Runs without races

A work-item depends only on the cells that it accesses, and changes only those that it writes. If
the run in order completes and no work-item writes a cell that another one accesses, then every
other order of the work-items completes too, and leaves the same memory.
-/

namespace GridKernel

open List

/-- The first trace writes no cell of the second one. -/
def Spares (t t' : List Access) : Prop :=
  ∀ a ∈ t, ∀ b ∈ t', a.isWrite = true → a.cell ≠ b.cell

instance (t t' : List Access) : Decidable (Spares t t') :=
  inferInstanceAs (Decidable (∀ a ∈ t, ∀ b ∈ t', a.isWrite = true → a.cell ≠ b.cell))

namespace Eval

/-! ## The footprint of a work-item -/

/-- Two memories on the way from two starts: they hold the same in the cells of a trace, and in the
cells that it does not write each holds what it held at its start. -/
structure Alike (t : List Access) (start start' m m' : Memory) : Prop where
  kept : start.SameShape m
  shape : m.SameShape m'
  accessed : ∀ a ∈ t, m'.word? a.cell = m.word? a.cell
  unwritten : ∀ x, .write x ∉ t → m.word? x = start.word? x ∧ m'.word? x = start'.word? x

namespace Alike

variable {start m m' : Memory}

theorem store (h : Alike t start start' m m') {id : BufferId} (may : .write (.element id i) ∈ t) :
    Alike t start start' (m.modifyBuffer id (·.store i v)) (m'.modifyBuffer id (·.store i v)) where
  kept := h.kept.trans (.modifyBuffer m id fun b => b.shape_store i v)
  shape := (Memory.SameShape.modifyBuffer m id fun b => b.shape_store i v).symm.trans
    (h.shape.trans (.modifyBuffer m' id fun b => b.shape_store i v))
  accessed a member := Memory.word?_store_congr h.shape (h.accessed a member)
  unwritten x other := by
    have elsewhere : x ≠ .element id i := fun equal => other (equal ▸ may)
    rw [Memory.word?_store_of_ne elsewhere, Memory.word?_store_of_ne elsewhere]
    exact h.unwritten x other

theorem put (h : Alike t start start' m m') {id : SlotsId} (may : .write (.slot id i) ∈ t) :
    Alike t start start' (m.modifySlots id (·.put i v)) (m'.modifySlots id (·.put i v)) where
  kept := h.kept.trans (.modifySlots m id fun s => s.shape_put i v)
  shape := (Memory.SameShape.modifySlots m id fun s => s.shape_put i v).symm.trans
    (h.shape.trans (.modifySlots m' id fun s => s.shape_put i v))
  accessed a member := Memory.word?_put_congr (h.accessed a member)
  unwritten x other := by
    have elsewhere : x ≠ .slot id i := fun equal => other (equal ▸ may)
    rw [Memory.word?_put_of_ne elsewhere, Memory.word?_put_of_ne elsewhere]
    exact h.unwritten x other

theorem mirrored (t start start' b) : Mirrored (· ∈ t) (Alike t start start') b b := by
  cases b with
  | scalar v => exact .scalar v
  | array id =>
    exact .array (fun h => h.shape.buffers id) (fun h may => h.accessed _ may)
      (fun h may => h.store may)
  | slots id =>
    exact .slots (fun h => h.shape.slots id) (fun h may => h.accessed _ may)
      (fun h may => h.put may)

end Alike

/-- From a memory of the same shape, with the same in the cells that it accesses, a work-item ends
in the same way and leaves the same in those cells; it changes only those that it writes. -/
theorem run_alike (shape : m.SameShape m')
    (same : ∀ a ∈ trace c steps m, m'.word? a.cell = m.word? a.cell) :
    Alike (trace c steps m) m m' (run c steps m).1 (run c steps m').1 ∧
      (run c steps m').2 = (run c steps m).2 := by
  have mirror : Mirror c c (· ∈ trace c steps m) (Alike (trace c steps m) m m') :=
    ⟨rfl, rfl, forall₂_same.mpr fun b _ => Alike.mirrored _ m m' b⟩
  exact mirror.run ⟨.refl m, shape, same, fun _ _ => ⟨rfl, rfl⟩⟩ fun _ accessed => accessed

end Eval

namespace Launch

variable {l : Launch} {steps : Nat} {m : Memory}

/-! ## The run in order -/

/-- Memory when the run in order reaches a work-item. -/
def reached (l : Launch) (steps : Nat) (m : Memory) (flat : Nat) : Memory :=
  (l.runFrom steps 0 flat m).1

/-- The accesses of a work-item in the run in order. -/
def accesses (l : Launch) (steps : Nat) (m : Memory) (flat : Nat) : List Access :=
  Eval.trace (l.context flat) steps (l.reached steps m flat)

/-- No cell that one work-item writes is accessed by another one. -/
def RaceFree (l : Launch) (steps : Nat) (m : Memory) : Prop :=
  ∀ i < l.range.workItems, ∀ j < l.range.workItems, i ≠ j →
    Spares (l.accesses steps m i) (l.accesses steps m j)

instance : Decidable (l.RaceFree steps m) :=
  inferInstanceAs (Decidable (∀ i < l.range.workItems, ∀ j < l.range.workItems, i ≠ j →
    Spares (l.accesses steps m i) (l.accesses steps m j)))

/-- A run of one work-item more. -/
theorem runFrom_succ (l : Launch) (steps count : Nat) (m : Memory) :
    l.runFrom steps 0 (count + 1) m =
      match l.runFrom steps 0 count m with
      | (m, none) => l.runItem steps count m
      | stopped => stopped := by
  rw [runFrom_eq, range'_1_concat, runOrder_append, ← runFrom_eq, Nat.zero_add]
  obtain ⟨m', fault⟩ := l.runFrom steps 0 count m
  cases fault with
  | some fault => rfl
  | none =>
    dsimp only [runOrder]
    obtain ⟨m'', fault⟩ := l.runItem steps count m'
    cases fault <;> rfl

/-- A run that completes completes each of its work-items. -/
theorem item_of_completes (completes : (l.runFrom steps 0 n m).2 = none) (inRange : flat < n) :
    l.runItem steps flat (l.reached steps m flat) = (l.reached steps m (flat + 1), none) := by
  induction n with
  | zero => omega
  | succ n ih =>
    have last := runFrom_succ l steps n m
    rcases before : l.runFrom steps 0 n m with ⟨m', fault⟩
    rw [before] at last
    cases fault with
    | some fault =>
      rw [last] at completes
      cases completes
    | none =>
      rcases Nat.lt_succ_iff_lt_or_eq.mp inRange with earlier | rfl
      · exact ih (by rw [before]) earlier
      · dsimp only at last
        rw [last] at completes
        rw [reached, before, reached, last, ← completes]

/-- A completed run in order, and no races in it. -/
structure Orderly (l : Launch) (steps : Nat) (m : Memory) : Prop where
  completes : (l.runSequential steps m).2 = none
  raceFree : l.RaceFree steps m

namespace Orderly

variable {i : Nat} {x : Cell}

section

variable (h : l.Orderly steps m)
include h

/-- The next work-item to be reached finds what this one leaves behind, which is complete. -/
theorem item (inRange : i < l.range.workItems) :
    Eval.run (l.context i) steps (l.reached steps m i) = (l.reached steps m (i + 1), none) := by
  have ran := item_of_completes h.completes inRange
  rw [runItem_eq, Prod.mk.injEq, Option.map_eq_none_iff] at ran
  exact Prod.ext ran.1 ran.2

/-- A cell keeps its word while no work-item writes it. -/
theorem word_kept (ordered : i ≤ j) (inRange : j ≤ l.range.workItems)
    (spared : ∀ k, i ≤ k → k < j → .write x ∉ l.accesses steps m k) :
    (l.reached steps m j).word? x = (l.reached steps m i).word? x := by
  induction ordered with
  | refl => rfl
  | @step j ordered ih =>
    have ran := h.item (i := j) (by omega)
    obtain ⟨alike, -⟩ := Eval.run_alike (.refl (l.reached steps m j)) fun a _ => rfl
    have word := (alike.unwritten x (spared j ordered (Nat.lt_succ_self j))).1
    rw [ran] at word
    rw [word]
    exact ih (by omega) fun k after before => spared k after (by omega)

theorem shape_kept (inRange : i ≤ l.range.workItems) :
    m.SameShape (l.reached steps m i) := by
  induction i with
  | zero => exact .refl m
  | succ i ih =>
    have ran := h.item (i := i) (by omega)
    obtain ⟨alike, -⟩ := Eval.run_alike (.refl (l.reached steps m i)) fun a _ => rfl
    have kept := alike.kept
    rw [ran] at kept
    exact (ih (by omega)).trans kept

/-- A cell that a work-item accesses is written by no other one. -/
theorem spared (inRange : i < l.range.workItems) (inRange' : j < l.range.workItems)
    (different : j ≠ i) (accessed : a ∈ l.accesses steps m i) :
    .write a.cell ∉ l.accesses steps m j :=
  fun written => h.raceFree j inRange' i inRange different _ written a accessed rfl rfl

/-- A work-item finds the cells that it accesses as they were at the start. -/
theorem word_at_start (inRange : i < l.range.workItems) (accessed : a ∈ l.accesses steps m i) :
    (l.reached steps m i).word? a.cell = m.word? a.cell :=
  h.word_kept (Nat.zero_le i) (Nat.le_of_lt inRange) fun k _ before =>
    h.spared inRange (by omega) (by omega) accessed

/-- The cells that a work-item accesses stay as it leaves them. -/
theorem word_at_end (inRange : i < l.range.workItems) (accessed : a ∈ l.accesses steps m i) :
    (l.reached steps m l.range.workItems).word? a.cell =
      (l.reached steps m (i + 1)).word? a.cell :=
  h.word_kept inRange (Nat.le_refl _) fun k after before =>
    h.spared inRange before (by omega) accessed

end

end Orderly

/-! ## Other orders -/

/-- Memory after some of the work-items: the cells that they wrote hold what the run in order leaves
in them, and the other cells what they held at the start. -/
structure Partway (l : Launch) (steps : Nat) (m : Memory) (ran : List Nat) (m' : Memory) :
    Prop where
  shape : m.SameShape m'
  written : ∀ i ∈ ran, ∀ x, .write x ∈ l.accesses steps m i →
    m'.word? x = (l.reached steps m l.range.workItems).word? x
  unwritten : ∀ x, (∀ i ∈ ran, .write x ∉ l.accesses steps m i) → m'.word? x = m.word? x

namespace Partway

theorem start (l : Launch) (steps m) : l.Partway steps m [] m :=
  ⟨.refl m, fun _ absent => absurd absent not_mem_nil, fun _ _ => rfl⟩

/-- One work-item more, whichever it is. -/
theorem item (h : l.Partway steps m ran m') (orderly : l.Orderly steps m)
    (inRange : ∀ j ∈ i :: ran, j < l.range.workItems) (fresh : i ∉ ran) :
    ∃ m'', l.runItem steps i m' = (m'', none) ∧ l.Partway steps m (i :: ran) m'' := by
  have here : i < l.range.workItems := inRange i mem_cons_self
  have different : ∀ j ∈ ran, j ≠ i := fun j member equal => fresh (equal ▸ member)
  have start : ∀ a ∈ l.accesses steps m i,
      m'.word? a.cell = (l.reached steps m i).word? a.cell := by
    intro a accessed
    rw [orderly.word_at_start here accessed]
    exact h.unwritten _ fun j member =>
      orderly.spared here (inRange j (mem_cons_of_mem _ member)) (different j member) accessed
  obtain ⟨alike, ending⟩ := Eval.run_alike
    ((orderly.shape_kept (Nat.le_of_lt here)).symm.trans h.shape) start
  rw [orderly.item here] at alike ending
  refine ⟨(Eval.run (l.context i) steps m').1, ?_, ?_, ?_, ?_⟩
  · rw [runItem_eq, ending]
    rfl
  · exact (orderly.shape_kept here).trans alike.shape
  · intro j member x written
    rcases mem_cons.mp member with rfl | earlier
    · exact (alike.accessed _ written).trans (orderly.word_at_end here written).symm
    · -- what an earlier work-item wrote, this one does not write
      have other := orderly.spared (inRange j member) here (different j earlier).symm written
      rw [(alike.unwritten x other).2]
      exact h.written j earlier x written
  · intro x spared
    rw [(alike.unwritten x (spared i mem_cons_self)).2]
    exact h.unwritten x fun j member => spared j (mem_cons_of_mem _ member)

/-- The rest of an order. -/
theorem order (h : l.Partway steps m ran m') (orderly : l.Orderly steps m) (rest)
    (inRange : ∀ j ∈ ran ++ rest, j < l.range.workItems) (once : (ran ++ rest).Nodup) :
    ∃ m'' all, l.runOrder steps rest m' = (m'', none) ∧ l.Partway steps m all m'' ∧
      all.Perm (ran ++ rest) := by
  induction rest generalizing ran m' with
  | nil => exact ⟨m', ran, rfl, h, by simp⟩
  | cons i rest ih =>
    have moved : (i :: ran ++ rest).Perm (ran ++ i :: rest) := perm_middle.symm
    have fresh : i ∉ ran := fun member =>
      (nodup_append.mp once).2.2 i member i mem_cons_self rfl
    obtain ⟨m₁, ranItem, next⟩ := h.item orderly
      (fun j member => inRange j (moved.subset (mem_append_left rest member))) fresh
    obtain ⟨m₂, all, ranRest, partway, same⟩ := ih next
      (fun j member => inRange j (moved.subset member)) (moved.nodup_iff.mpr once)
    refine ⟨m₂, all, ?_, partway, same.trans moved⟩
    rw [runOrder, ranItem]
    exact ranRest

/-- After all work-items memory is as after the run in order. -/
theorem all (h : l.Partway steps m ran m') (orderly : l.Orderly steps m)
    (complete : ∀ i, i ∈ ran ↔ i < l.range.workItems) :
    m' = l.reached steps m l.range.workItems := by
  refine Memory.eq_of_words ((orderly.shape_kept (Nat.le_refl _)).symm.trans h.shape) fun x => ?_
  by_cases written : ∃ i ∈ ran, .write x ∈ l.accesses steps m i
  · obtain ⟨i, member, written⟩ := written
    exact h.written i member x written
  · have spared : ∀ i ∈ ran, .write x ∉ l.accesses steps m i :=
      fun i member accessed => written ⟨i, member, accessed⟩
    rw [h.unwritten x spared]
    exact (orderly.word_kept (Nat.zero_le _) (Nat.le_refl _) fun k _ before =>
      spared k ((complete k).mpr before)).symm

end Partway

/-- Every order of the work-items ends as the run in order does. -/
theorem Orderly.runOrder_eq (h : l.Orderly steps m) {order : List Nat}
    (all : order.Perm (List.range l.range.workItems)) :
    l.runOrder steps order m = l.runSequential steps m := by
  have inRange : ∀ i, i ∈ order ↔ i < l.range.workItems := fun i => by
    rw [all.mem_iff, mem_range]
  obtain ⟨m', ran, ended, partway, same⟩ := (Partway.start l steps m).order h order
    (fun i member => (inRange i).mp member) (all.nodup_iff.mpr nodup_range)
  have memory : m' = l.reached steps m l.range.workItems :=
    partway.all h fun i => (same.mem_iff).trans (inRange i)
  rw [ended, memory]
  exact Prod.ext rfl h.completes.symm

end Launch

namespace Pool

/-- Where work-items complete without races, the turns that their workers take amount to some order of
the work-items. -/
def Serial (p : Pool) : Prop :=
  ∀ (l : Launch) (steps threads : Nat) (m : Memory),
    (l.runSequential steps m).2 = none → l.RaceFree steps m →
    ∃ order : List Nat, order.Perm (List.range l.range.workItems) ∧
      l.runPooled p steps threads m = l.runOrder steps order m

theorem inOrder_serial : inOrder.Serial := by
  intro l steps threads m _ _
  refine ⟨_, .of_eq (Launch.chunks_indices threads _), ?_⟩
  exact Launch.runChunks_eq _ m

/-- Without a fault it makes no difference that workers would go on after one. -/
theorem onward_run {l : Launch} {steps : Nat} {m m' : Memory} {cs : List Launch.Chunk}
    (ran : l.runOrder steps (cs.reverse.flatMap Launch.Chunk.indices) m = (m', none)) :
    onward.run l steps cs m = (m', none) := by
  induction cs generalizing m' with
  | nil => exact ran
  | cons c rest ih =>
    rw [reverse_cons, flatMap_append, flatMap_singleton, Launch.runOrder_append] at ran
    generalize first : l.runOrder steps (rest.reverse.flatMap Launch.Chunk.indices) m = r at ran
    obtain ⟨before, _ | fault⟩ := r
    · have here : l.runChunk steps c before = (m', none) := (Launch.runFrom_eq _ _ _).trans ran
      have earlier := ih first
      simp only [onward, foldr_cons] at earlier ⊢
      rw [earlier]
      dsimp only
      rw [here]
      rfl
    · cases ran

theorem onward_serial : onward.Serial := by
  intro l steps threads m completes raceFree
  have all : (((Launch.chunks threads l.range.workItems).reverse).flatMap Launch.Chunk.indices).Perm
      (List.range l.range.workItems) := by
    rw [← Launch.chunks_indices threads]
    exact (reverse_perm _).flatMap_right _
  have same := Launch.Orderly.runOrder_eq ⟨completes, raceFree⟩ all
  have ended : l.runSequential steps m = ((l.runSequential steps m).1, none) :=
    Prod.ext rfl completes
  refine ⟨_, all, ?_⟩
  rw [same, ended]
  exact onward_run (same.trans ended)

theorem Serial.runPooled_eq {p : Pool} {l : Launch} {steps : Nat} {m : Memory} (serial : p.Serial)
    (completes : (l.runSequential steps m).2 = none) (raceFree : l.RaceFree steps m)
    (threads : Nat) : l.runPooled p steps threads m = l.runSequential steps m := by
  obtain ⟨order, same, ran⟩ := serial l steps threads m completes raceFree
  exact ran.trans (Launch.Orderly.runOrder_eq ⟨completes, raceFree⟩ same)

/-- Two pools end a launch alike: their workers take the same turns, or the work-items complete
without races, so that it makes no difference. -/
inductive Alike (l : Launch) (steps : Nat) (m : Memory) : Pool → Pool → Prop
  | same (p : Pool) : Alike l steps m p p
  | raceFree {p p' : Pool} (serial : p.Serial) (serial' : p'.Serial)
      (completes : (l.runSequential steps m).2 = none) (raceFree : l.RaceFree steps m) :
      Alike l steps m p p'

theorem Alike.runPooled_eq {l : Launch} {steps : Nat} {m : Memory} {p p' : Pool}
    (alike : Alike l steps m p p') (threads : Nat) :
    l.runPooled p' steps threads m = l.runPooled p steps threads m := by
  cases alike with
  | same => rfl
  | raceFree serial serial' completes raceFree =>
    rw [serial.runPooled_eq completes raceFree, serial'.runPooled_eq completes raceFree]

end Pool

namespace Launch

/-- If the run in order completes without races, every order of the work-items completes and leaves
the same memory; so do the chunks of a pool of any size, in any order of theirs or in whichever turns
its workers take. -/
theorem pool_agrees_without_races {l : Launch} {steps : Nat} {m : Memory}
    (completes : (l.runSequential steps m).2 = none) (raceFree : l.RaceFree steps m) :
    (∀ order : List Nat, order.Perm (List.range l.range.workItems) →
      l.runOrder steps order m = l.runSequential steps m) ∧
    (∀ (threads : Nat) (cs : List Chunk), cs.Perm (chunks threads l.range.workItems) →
      l.runChunks steps cs m = l.runSequential steps m) ∧
    ∀ (pool : Pool) (threads : Nat), pool.Serial →
      l.runPooled pool steps threads m = l.runSequential steps m := by
  have orderly : l.Orderly steps m := ⟨completes, raceFree⟩
  have chunked : ∀ (threads : Nat) (cs : List Chunk), cs.Perm (chunks threads l.range.workItems) →
      l.runChunks steps cs m = l.runSequential steps m := by
    intro threads cs same
    rw [runChunks_eq]
    refine orderly.runOrder_eq ?_
    rw [← chunks_indices threads]
    exact same.flatMap_right _
  exact ⟨fun _ => orderly.runOrder_eq, chunked, fun pool threads serial =>
    serial.runPooled_eq completes raceFree threads⟩

/-- Each work-item adds to a common element for its own element and for its own slot. -/
def spreadMain : Method where
  name := "run"
  body := [
    .expr (.assign (.element "out" (.globalId 0)) none
      (.binary .add (.element "common" (.int 0)) (.globalId 0))),
    .expr (.atomic .add ⟨"bins", some (.globalId 0)⟩ [.element "common" (.int 0)])]

def spreadLaunch : Launch where
  descriptor := ⟨"Spread", [⟨"common", .scalar .int, .array, .global, .readOnly⟩,
    ⟨"out", .scalar .int, .array, .global, .readWrite⟩,
    ⟨"bins", .atomic .int, .array, .global, .readWrite⟩], spreadMain, []⟩
  bound := [.array 0, .array 1, .slots 0]
  range := ⟨[5], none, by decide⟩
  localSize := ⟨1, 1, 1⟩
  passId := 0

def spreadMemory : Memory where
  buffers := #[⟨.int, #[7]⟩, .zeroed .int 5]
  slots := #[⟨.int, .global, #[1, 2, 3, 4, 5]⟩]

/-- Three workers for five work-items, the last chunk first. -/
theorem spread_agrees_in_chunks :
    (spreadLaunch.runSequential 20 spreadMemory).2 = none ∧
      spreadLaunch.RaceFree 20 spreadMemory ∧
      chunks 3 5 = [⟨0, 2⟩, ⟨2, 4⟩, ⟨4, 5⟩] ∧
      spreadLaunch.runChunks 20 [⟨4, 5⟩, ⟨0, 2⟩, ⟨2, 4⟩] spreadMemory =
        spreadLaunch.runSequential 20 spreadMemory ∧
      (spreadLaunch.runSequential 20 spreadMemory).1 =
        { buffers := #[⟨.int, #[7]⟩, ⟨.int, #[7, 8, 9, 10, 11]⟩]
          slots := #[⟨.int, .global, #[8, 9, 10, 11, 12]⟩] } := by
  have completes : (spreadLaunch.runSequential 20 spreadMemory).2 = none := by decide +kernel
  have raceFree : spreadLaunch.RaceFree 20 spreadMemory := by decide +kernel
  have cut : chunks 3 5 = [⟨0, 2⟩, ⟨2, 4⟩, ⟨4, 5⟩] := by decide
  refine ⟨completes, raceFree, cut, ?_, by decide +kernel⟩
  refine (pool_agrees_without_races completes raceFree).2.1 3 _ ?_
  change List.Perm _ (chunks 3 5)
  decide

end Launch

end GridKernel
