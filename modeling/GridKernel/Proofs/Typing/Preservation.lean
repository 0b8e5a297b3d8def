import GridKernel.Proofs.Lang.Parts
import GridKernel.Proofs.Typing.Safety

/-!
# Types are preserved

Seen from outside, soundness says that evaluation and checker agree: on the types of values, on the
locals in sight at every point, on scalar fields, and on what methods return.
-/

namespace GridKernel

namespace Eval

open Typing

/-- The state of a work-item at a point of a method where `scope` is in sight. -/
def Matches (c : Context) (scope : Scope) (m : Machine) : Prop :=
  ∃ callers, Holds c scope.names callers m

variable {c : Context}

/-- A name stands for a local exactly if it is declared, and the local has the declared type. -/
theorem Matches.lookup (h : Matches c scope m) (name) :
    (m.current.lookup name).map Value.type = scope.lookup? name := by
  obtain ⟨callers, holds⟩ := h
  rw [← Frame.lookup_types, holds.locals, Scope.lookup?_eq]

/-- The scalar fields that were written hold values of their types. -/
theorem Matches.scalars (h : Matches c scope m) (index : c.descriptor.fieldIndex? name = some i)
    (declared : scalarType c.descriptor name = .ok t) (written : m.scalars.lookup i = some v) :
    v.type = t := by
  obtain ⟨callers, holds⟩ := h
  obtain ⟨f, found, -, element⟩ := scalarType_eq_ok.mp declared
  obtain ⟨j, index', found'⟩ := Descriptor.fieldIndex_of_field found
  obtain rfl : i = j := Option.some.inj (index.symm.trans index')
  obtain ⟨g, found'', -, element'⟩ := holds.scalars written
  obtain rfl : f = g := Option.some.inj (found'.symm.trans found'')
  exact ElementType.scalar.inj (element'.symm.trans element)

/-- In a checked kernel, from any state that matches the scope: values have the types of their
expressions, statements lead to states that match the scope after them, and methods return what
they declare. The entry point starts in such a state, and after a run the kernel can be run again. -/
theorem evaluation_preserves_types {schema : Schema} {d : Descriptor} {k : Kernel} {m : Memory}
    {bound : List Bound} (built : schema.build = .ok d) (checked : check d = .ok ())
    (made : k.Made d m) (complete : k.bound = .ok bound) (item : WorkItem) (steps : Nat) :
    let c : Context := ⟨d, bound, item⟩
    Matches c (.ofMethod d.main) { memory := m } ∧
    k.Made d (run c steps m).1 ∧
    (∀ scope e t start v after, Matches c scope start → typeOf d scope e = .ok (some t) →
      eval c steps e start = .ok v after → v.type = t ∧ Matches c scope after) ∧
    (∀ method ∈ d.methods, ∀ st ∈ Stmt.flattenAll method.body,
      ∀ inLoop position scope scope' start after, Matches c scope start →
      checkStmt d method inLoop position scope st = .ok scope' →
      stmt c steps st start = .ok .normal after →
      Matches c scope' after ∧
        ∀ name, (after.current.lookup name).map Value.type = scope'.lookup? name) ∧
    (∀ scope state name i t v, Matches c scope state → d.fieldIndex? name = some i →
      scalarType d name = .ok t → state.scalars.lookup i = some v → v.type = t) ∧
    (∀ scope name args result start v after, Matches c scope start →
      typeOf d scope (.call name args) = .ok result →
      call c steps name args start = .ok v after → v.map Value.type = result) ∧
    ∀ v after, invoke c steps d.main [] { memory := m } = .ok v after → v = none := by
  intro c
  have fits := made.allFit complete
  have main := Schema.build_main built
  have safe : Sound c steps := sound checked steps
  refine ⟨?_, ?_, ?_, ?_, ?_, ?_, ?_⟩
  · refine ⟨[], rfl, ?_, rfl, nofun, fits⟩
    rw [Scope.names_ofMethod, main.1]
    rfl
  · exact .proceed made rfl rfl (run_keeps c steps m)
  · rintro scope e t start v after ⟨callers, holds⟩ typed ended
    obtain ⟨type, holds'⟩ := (safe.value typed holds).of_ok ended
    exact ⟨type, callers, holds'⟩
  · rintro method member st found inLoop position scope scope' start after ⟨callers, holds⟩
      accepted ended
    have inside : Inside c.descriptor st.flatten :=
      ⟨method, member, fun _ nested => Stmt.flattenAll_nested found nested⟩
    obtain ⟨-, inner, holds', names⟩ := (safe.statement accepted inside holds).of_ok ended
    rw [names rfl] at holds'
    exact ⟨⟨callers, holds'⟩, Matches.lookup ⟨callers, holds'⟩⟩
  · intro scope state name i t v matched index declared written
    exact matched.scalars index declared written
  · rintro scope name args result start v after ⟨callers, holds⟩ typed ended
    obtain ⟨method, found, -, arity, accepted, rfl⟩ := typeOf_call typed
    exact ((safe.calls found arity accepted holds).of_ok ended).1
  · intro v after ended
    have noParams : ([] : List Value).map Value.type = d.main.params.map Param.type := by
      rw [main.1]
      rfl
    have returned := (safe.invocation List.mem_cons_self noParams (start_holds fits item)).of_ok ended
    rw [main.2] at returned
    exact Option.map_eq_none_iff.mp returned.1

/-- The store of the first work-item: its value is an `int`, as the checker says, and the state
after it still matches the scope. -/
theorem store_value_typed :
    let d := storeKernel.descriptor
    let m : Memory := { buffers := #[.zeroed .int 1] }
    let c : Context := ⟨d, [.array 0], ⟨⟨0, 0, 0⟩, ⟨1, 1, 1⟩, ⟨1, 1, 1⟩, 0⟩⟩
    let e : Expr := .assign (.element "out" (.globalId 0)) none (.int 7)
    let after : Memory := { buffers := #[⟨.int, #[7]⟩] }
    typeOf d ⟨[[]]⟩ e = .ok (some .int) ∧
      eval c 5 e { memory := m } = .ok (.int 7) { memory := after } ∧
      (Value.int 7).type = .int ∧ Matches c ⟨[[]]⟩ { memory := after } := by
  intro d m c e after
  have bound : (Kernel.new d m).1.bind "out" 0 (Buffer.zeroed .int 1).type = .ok storeKernel := rfl
  have made : storeKernel.Made d m := .bind (.new m) rfl bound
  have preserved := evaluation_preserves_types (show storeSchema.build = .ok d from rfl) rfl made
    (show storeKernel.bound = .ok [.array 0] from rfl) ⟨⟨0, 0, 0⟩, ⟨1, 1, 1⟩, ⟨1, 1, 1⟩, 0⟩ 5
  have ended : eval c 5 e { memory := m } = .ok (.int 7) { memory := after } := rfl
  exact ⟨rfl, ended, preserved.2.2.1 ⟨[[]]⟩ e .int _ _ _ preserved.1 rfl ended⟩

end Eval

end GridKernel
