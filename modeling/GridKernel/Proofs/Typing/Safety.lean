import GridKernel.Proofs.Dispatch.Bindings
import GridKernel.Proofs.Eval.Frame
import GridKernel.Proofs.Kernel.Build
import GridKernel.Proofs.Launch.Items
import GridKernel.Proofs.Typing.Soundness

/-!
# Why checked kernels stop

A kernel that was built, checked and bound stops for its data: an index out of bounds or a
division by zero. There is one gap. The checker lets an update of a `for` call a void method, as a
statement may, but updates are evaluated for their value, which such a call does not have.
-/

namespace GridKernel

/-- The traps that depend on data alone. -/
def Trap.IsData : Trap → Prop
  | .outOfBounds _ _ _ | .divisionByZero => True
  | _ => False

namespace Eval

open Typing

variable {schema : Schema} {d : Descriptor} {bound : List Bound} {m : Memory}

/-- The state in which a work-item starts. -/
theorem start_holds (fits : Bound.AllFit d.fields bound m) (item) :
    Holds ⟨d, bound, item⟩ [] [] { memory := m } where
  frame := rfl
  locals := rfl
  callers := rfl
  scalars := nofun
  fits := fits

/-- One work-item: fields are still bound to what fits them, or it stops for an allowed reason. -/
theorem run_safe (built : schema.build = .ok d) (checked : check d = .ok ())
    (fits : Bound.AllFit d.fields bound m) (item : WorkItem) (steps : Nat) :
    match run ⟨d, bound, item⟩ steps m with
    | (m', none) => Bound.AllFit d.fields bound m'
    | (_, some stop) => Allowed d stop := by
  have noParams : ([] : List Value).map Value.type = d.main.params.map Param.type := by
    rw [(Schema.build_main built).1]
    rfl
  have safe := (sound (c := ⟨d, bound, item⟩) checked steps).invocation (List.mem_cons_self)
    noParams (start_holds fits item)
  unfold run
  cases ended : invoke ⟨d, bound, item⟩ steps d.main [] { memory := m } with
  | ok v m' => exact (safe.of_ok ended).2.fits
  | error stop m' => exact safe.of_error ended

theorem runFrom_safe (built : schema.build = .ok d) (checked : check d = .ok ())
    (fits : Bound.AllFit d.fields bound m) (range localSize passId steps count flat) :
    RunEnds (Bound.AllFit d.fields bound) (fun fault _ => Allowed d fault.stop)
      (Launch.runFrom ⟨d, bound, range, localSize, passId⟩ steps flat count m) := by
  refine Launch.runFrom_ends ?_ count flat fits
  intro flat m fits
  have safe := run_safe built checked fits
    (.ofFlat range localSize passId flat) steps
  rw [Launch.runItem_eq]
  unfold Launch.context
  generalize run ⟨d, bound, .ofFlat range localSize passId flat⟩ steps m = r at safe ⊢
  obtain ⟨m', stop⟩ := r
  cases stop with
  | none | some stop => exact safe

theorem Allowed.data (h : Allowed d stop) (trapped : stop = .trap t) :
    t.IsData ∨ ∃ name, t = .voidValue name ∧ VoidUpdate d name := by
  cases h with
  | exhausted => cases trapped
  | outOfBounds index name size | divisionByZero => cases trapped; exact .inl trivial
  | voidUpdate void => cases trapped; exact .inr ⟨_, rfl, void⟩

/-- A call of a void method has no value to evaluate to. -/
theorem void_call_stops (checked : check c.descriptor = .ok ())
    (typed : typeOf c.descriptor scope (.call name args) = .ok none)
    (holds : Holds c scope.names callers start) :
    eval c steps (.call name args) start ≠ .ok v after := by
  intro ended
  cases steps with
  | zero => cases ended
  | succ n =>
    obtain ⟨method, found, -, arity, args, void⟩ := typeOf_call typed
    obtain ⟨result, mid, returned, finished⟩ := bind_ok ended
    have type := (((sound checked n).calls found arity args holds).of_ok returned).1
    rw [← void] at type
    obtain rfl := Option.map_eq_none_iff.mp type
    cases finished

/-- A checked kernel stops for its data, or at an update that calls a void method. Such an update
never completes. -/
theorem checked_stops_for_data {k : Kernel} (built : schema.build = .ok d)
    (checked : check d = .ok ()) (made : k.Made d m) (complete : k.bound = .ok bound) :
    (∀ (range : Range) (localSize : Dim3) (passId : Int32) (steps flat count : Nat)
      (fault : RunFault) (t : Trap),
      (Launch.runFrom ⟨d, bound, range, localSize, passId⟩ steps flat count m).2 = some fault →
      fault.stop = .trap t →
      t.IsData ∨ ∃ name, t = .voidValue name ∧ VoidUpdate d name) ∧
    ∀ (item : WorkItem) (steps : Nat) (scope : Scope) (name : String) (args : List Expr)
      (callers : Frame) (start after : Machine) (v : Value),
      typeOf d scope (.call name args) = .ok none →
      Holds ⟨d, bound, item⟩ scope.names callers start →
      eval ⟨d, bound, item⟩ steps (.call name args) start ≠ .ok v after := by
  refine ⟨?_, ?_⟩
  · intro range localSize passId steps flat count fault t stopped trapped
    have safe := runFrom_safe built checked (made.allFit complete) range localSize passId steps
      count flat
    unfold RunEnds at safe
    rw [stopped] at safe
    exact safe.data trapped
  · intro item steps scope name args callers start after v typed holds
    exact void_call_stops checked typed holds

/-- Every work-item stores into the element of its own number. -/
def storeMain : Method where
  name := "run"
  body := [.expr (.assign (.element "out" (.globalId 0)) none (.int 7))]

def storeSchema : Schema where
  name := "Store"
  fields := [{ name := "out", type := .scalar .int, shape := .array }]
  methods := [storeMain]

def storeKernel : Kernel where
  descriptor := ⟨"Store", [⟨"out", .scalar .int, .array, .global, .readWrite⟩], storeMain, []⟩
  bindings := [some (.array 0)]

/-- Two work-items and an array of one element: the second one is out of bounds. -/
theorem store_stops_out_of_bounds :
    let d := storeKernel.descriptor
    let m : Memory := { buffers := #[.zeroed .int 1] }
    let launch : Launch := ⟨d, [.array 0], ⟨[2], none, by decide⟩, ⟨2, 1, 1⟩, 0⟩
    storeSchema.build = .ok d ∧ check d = .ok () ∧ storeKernel.Made d m ∧
      storeKernel.bound = .ok [.array 0] ∧
      (launch.runFrom 20 0 2 m).2 = some ⟨⟨1, 0, 0⟩, .trap (.outOfBounds 1 "out" 1)⟩ ∧
      ((Trap.outOfBounds 1 "out" 1).IsData ∨
        ∃ name, Trap.outOfBounds 1 "out" 1 = .voidValue name ∧ VoidUpdate d name) := by
  intro d m launch
  have built : storeSchema.build = .ok d := rfl
  have checked : check d = .ok () := rfl
  have bound : (Kernel.new d m).1.bind "out" 0 (Buffer.zeroed .int 1).type = .ok storeKernel := rfl
  have made : storeKernel.Made d m := .bind (.new m) rfl bound
  have complete : storeKernel.bound = .ok [.array 0] := rfl
  have stopped : (launch.runFrom 20 0 2 m).2 =
      some ⟨⟨1, 0, 0⟩, .trap (.outOfBounds 1 "out" 1)⟩ := by decide +kernel
  exact ⟨built, checked, made, complete, stopped,
    (checked_stops_for_data built checked made complete).1 _ _ _ 20 0 2 _ _ stopped rfl⟩

/-- A loop over one round whose update calls a void method before it counts. -/
def voidUpdateSchema : Schema where
  name := "Count"
  methods := [
    { name := "run"
      body := [.forLoop [.declare "i" .int (some (.int 0))]
        (some (.binary .lt (.var "i") (.int 1)))
        [.call "tick" [], .step (.var "i") .inc false] []] },
    { name := "tick", body := [] }]

/-- The kernel is built and checked, has no field to bind, and stops in its first work-item with a
trap that is not one of data. -/
theorem void_update_stops_checked_kernel :
    ∃ d, voidUpdateSchema.build = .ok d ∧ check d = .ok () ∧
      (Kernel.new d {}).1.bound = .ok [] ∧
      (Launch.runFrom ⟨d, [], ⟨[1], none, by decide⟩, ⟨1, 1, 1⟩, 0⟩ 20 0 1 {}).2 =
        some ⟨⟨0, 0, 0⟩, .trap (.voidValue "tick")⟩ ∧
      ¬(Trap.voidValue "tick").IsData := by
  refine ⟨_, rfl, ?_, ?_, ?_, id⟩
  all_goals rfl

end Eval

end GridKernel
