import GridKernel.Config.Basic
import GridKernel.Proofs.Eval.Frame
import GridKernel.Proofs.Launch.Items
import GridKernel.Proofs.Launch.Order

/-!
# What a pool may do to memory

Workers that run beside each other may take turns in any way. What is asked of a pool is that memory
changes by what the work-items of the launch store and by nothing else, and that no worker stores
anything after the pool has returned. Then memory before and after a run is related by everything
that a single store keeps.
-/

namespace GridKernel

namespace Launch

/-- The text of the kernel stores into this field. -/
def Stores (l : Launch) (name : String) : Prop :=
  ∃ method ∈ l.descriptor.methods, ∃ e ∈ Stmt.allNodes method.body, e.writtenField? = some name

/-- From one memory to another by stores and operations on slots which the text of the kernel makes,
one after the other. -/
inductive Reaches (l : Launch) : Memory → Memory → Prop
  | refl (m : Memory) : Reaches l m m
  | store {m m' : Memory} {name : String} {i : Nat} {id : BufferId} (before : Reaches l m m')
      (stores : l.Stores name) (field : l.descriptor.fieldIndex? name = some i)
      (bound : l.bound[i]? = some (.array id)) (k : Nat) (v : Value) :
      Reaches l m (m'.modifyBuffer id (·.store k v))
  | perform {m m' : Memory} {name : String} {i k : Nat} {id : SlotsId} {op : AtomicOp}
      {operands : List Int64} {s after : SlotArray} {result : Int64} (before : Reaches l m m')
      (stores : op.writes = true → l.Stores name) (field : l.descriptor.fieldIndex? name = some i)
      (bound : l.bound[i]? = some (.slots id)) (held : m'.slots[id]? = some s)
      (performed : s.perform? k op operands = some (after, result)) :
      Reaches l m (m'.modifySlots id fun _ => after)

variable {l : Launch} {m m' m'' : Memory} {steps flat : Nat}

namespace Reaches

theorem trans (h : l.Reaches m m') (h' : l.Reaches m' m'') : l.Reaches m m'' := by
  induction h' with
  | refl => exact h
  | store _ stores field bound k v ih => exact .store ih stores field bound k v
  | perform _ stores field bound held performed ih =>
    exact .perform ih stores field bound held performed

/-- What every store keeps, all of them together keep. -/
theorem moves {written : String → Prop} {R : Memory → Memory → Prop}
    (framed : Eval.Framed (l.context flat) written R)
    (only : ∀ method ∈ l.descriptor.methods, WritesOnly written (Stmt.allNodes method.body))
    (h : l.Reaches m m') : R m m' := by
  have may : ∀ {name}, l.Stores name → written name :=
    fun ⟨method, member, e, node, writes⟩ => only method member e node _ writes
  induction h with
  | refl => exact framed.refl m
  | store _ stores field bound k v ih =>
    exact framed.trans ih (framed.store (may stores) field bound _ k v)
  | perform _ stores field bound held performed ih =>
    exact framed.trans ih (framed.perform (fun writes => may (stores writes)) field bound held performed)

end Reaches

/-! ## Work-items -/

theorem reaches_framed (l : Launch) (flat : Nat) :
    Eval.Framed (l.context flat) l.Stores l.Reaches where
  refl := .refl
  trans := .trans
  store stores field bound m k v := .store (.refl m) stores field bound k v
  perform stores field bound held performed := .perform (.refl _) stores field bound held performed

theorem runItem_reaches (l : Launch) (steps flat : Nat) (m : Memory) :
    l.Reaches m (l.runItem steps flat m).1 := by
  rw [runItem_eq]
  exact Eval.run_moves (l.reaches_framed flat)
    (fun method member e node _ writes => ⟨method, member, e, node, writes⟩) steps m

/-- Work-items in any order, up to the one that stops. -/
theorem runOrder_reaches (l : Launch) (steps : Nat) (order : List Nat) (m : Memory) :
    l.Reaches m (l.runOrder steps order m).1 := by
  induction order generalizing m with
  | nil => exact .refl m
  | cons flat rest ih =>
    have first := l.runItem_reaches steps flat m
    rw [runOrder]
    generalize l.runItem steps flat m = r at first ⊢
    obtain ⟨m', fault⟩ := r
    cases fault with
    | none => exact first.trans (ih m')
    | some fault => exact first

end Launch

/-! ## Pools -/

namespace Pool

/-- When the pool returns all workers have ended, and memory has changed by what the work-items of
the launch stored until then. -/
def Joins (p : Pool) : Prop :=
  ∀ (l : Launch) (steps : Nat) (cs : List Launch.Chunk) (m : Memory),
    l.Reaches m (p.run l steps cs m).1

theorem inOrder_joins : inOrder.Joins := by
  intro l steps cs m
  change l.Reaches m (l.runChunks steps cs m).1
  rw [Launch.runChunks_eq]
  exact l.runOrder_reaches steps _ m

/-- The last chunk is run first, and workers go on when another one has stopped. -/
def onward : Pool where
  run l steps := List.foldr (fun c after m =>
    let (m, fault) := after m
    let (m, later) := l.runChunk steps c m
    (m, fault <|> later)) fun m => (m, none)

theorem onward_joins : onward.Joins := by
  intro l steps cs m
  induction cs with
  | nil => exact .refl m
  | cons c rest ih =>
    refine ih.trans ?_
    change l.Reaches _ (l.runFrom steps c.start (c.stop - c.start) _).1
    rw [Launch.runFrom_eq]
    exact l.runOrder_reaches steps _ _

end Pool

namespace Launch

/-- Runs the work-items on the host. -/
def onHost (l : Launch) (device : Device) (host : Host) (c : Config) (m : Memory) :
    Memory × Option RunFault :=
  match device with
  | .pool => l.runPooled host.pool host.steps (c.workers host.parallelism) m
  | _ => l.runSequential host.steps m

theorem onHost_reaches {host : Host} (joins : host.pool.Joins) (l : Launch) (device : Device)
    (c : Config) (m : Memory) : l.Reaches m (l.onHost device host c m).1 := by
  cases device with
  | pool => exact joins l _ _ m
  | sequential | accelerator =>
    change l.Reaches m (l.runSequential _ m).1
    rw [runSequential_eq]
    exact l.runOrder_reaches _ _ m

end Launch

end GridKernel
