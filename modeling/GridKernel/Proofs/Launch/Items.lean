import GridKernel.Launch.Run

/-!
# From one work-item to a whole run

A run is a sequence of work-items that ends with the first one that stops early. What every
work-item keeps, the run keeps, in whatever chunks it is made.
-/

namespace GridKernel

/-- A range of one work-item is within bounds. -/
theorem Range.single_bounded : 1 ≤ [1].length ∧ [1].length ≤ 3 :=
  ⟨Nat.le_refl 1, Nat.le_add_left 1 2⟩

/-- Memory satisfies `kept` after a run, or `stopped` with the work-item that ended it. -/
def RunEnds (kept : Memory → Prop) (stopped : RunFault → Memory → Prop)
    (r : Memory × Option RunFault) : Prop :=
  match r.2 with
  | none => kept r.1
  | some fault => stopped fault r.1

namespace Launch

variable {l : Launch}

theorem runFrom_ends (item : ∀ flat m, kept m → RunEnds kept stopped (l.runItem steps flat m))
    (count flat) (start : kept m) : RunEnds kept stopped (l.runFrom steps flat count m) := by
  induction count generalizing flat m with
  | zero => exact start
  | succ count ih =>
    have first := item flat m start
    unfold runFrom
    generalize l.runItem steps flat m = r at first ⊢
    obtain ⟨m', fault⟩ := r
    cases fault with
    | none => exact ih (flat + 1) first
    | some fault => exact first

theorem runItem_eq (l : Launch) (steps flat m) :
    l.runItem steps flat m = ((Eval.run (l.context flat) steps m).1,
      (Eval.run (l.context flat) steps m).2.map fun stop =>
        ⟨(l.context flat).item.globalId, stop⟩) := by
  unfold runItem
  dsimp only
  obtain ⟨m', stop⟩ := Eval.run (l.context flat) steps m
  cases stop <;> rfl

end Launch

end GridKernel
