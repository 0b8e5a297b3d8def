import GridKernel.Proofs.Kernel.Linearize
import GridKernel.Proofs.Lang.Spans
import GridKernel.Proofs.Typing.Owners

/-!
# Diagnostics point at the statement at fault

The position in a diagnostic is the ordinal of the statement that itself holds the call, the
expression or the declaration at fault. A listing has a span for that ordinal, over the statement's
header. The checker, the call graph and the listing each count statements on their own; all of them
count as `Stmt.numbered` does.
-/

namespace GridKernel

open Outcome Option

namespace Typing

/-! ## Faults of statements -/

/-- What is wrong with a statement of a method, in the scope that is in force there. -/
inductive Offends (d : Descriptor) (m : Method) (s : Scope) (stmt : Stmt) : TypeFault → Prop
  | untyped {e : Expr} {fault : TypeFault} (own : e ∈ stmt.ownExprs)
      (failed : typeOf d s e = .error fault) : Offends d m s stmt fault
  | void {e : Expr} (own : e ∈ stmt.ownExprs) (typed : typeOf d s e = .ok none) :
      Offends d m s stmt (.voidValue e.text)
  | condition {e : Expr} {t : ScalarType} (own : e ∈ stmt.ownExprs)
      (typed : typeOf d s e = .ok (some t)) (other : t ≠ .boolean) :
      Offends d m s stmt (.wrongType .condition .boolean t)
  | initialValue {name : String} {type t : ScalarType} {e : Expr}
      (declares : stmt = .declare name type (some e)) (typed : typeOf d s e = .ok (some t))
      (other : t ≠ type) : Offends d m s stmt (.badInit type name t)
  | localName {name : String} {type : ScalarType} {init : Option Expr}
      (declares : stmt = .declare name type init) (invalid : Name.isValid name = false) :
      Offends d m s stmt (.badLocalName name)
  | redeclared {name : String} {type : ScalarType} {init : Option Expr}
      (declares : stmt = .declare name type init) (taken : s.declares name = true) :
      Offends d m s stmt (.redeclared name)
  | result {value : Option Expr} {found : Option ScalarType} (returns : stmt = .ret value)
      (typed : ∀ e ∈ value, typeOf d s e = .ok found) (other : found ≠ m.ret) :
      Offends d m s stmt (.badReturn m.name m.ret found)
  | strayBreak (breaks : stmt = .breakLoop) : Offends d m s stmt .strayBreak
  | strayContinue (continues : stmt = .continueLoop) : Offends d m s stmt .strayContinue
  | initializer {init body : List Stmt} {cond : Option Expr} {update : List Expr}
      (loop : Stmt.forLoop init cond update body ∈ Stmt.flattenAll m.body) (inside : stmt ∈ init)
      (other : isInitializer stmt = false) : Offends d m s stmt .badInitializer

section Faults

variable {d : Descriptor} {m : Method} {stmt : Stmt} {fault : TypeFault}

theorem valueType_eq_error :
    valueType d s e = .error fault ↔
      typeOf d s e = .error fault ∨ typeOf d s e = .ok none ∧ fault = .voidValue e.text := by
  unfold valueType asValue
  rw [bind_eq_error]
  refine or_congr_right ⟨?_, ?_⟩
  · rintro ⟨result, typed, h⟩
    cases result with
    | none => exact ⟨typed, (Except.error.inj h).symm⟩
    | some t => cases h
  · rintro ⟨typed, rfl⟩
    exact ⟨none, typed, rfl⟩

theorem Offends.of_valueType (own : e ∈ stmt.ownExprs) (failed : valueType d s e = .error fault) :
    Offends d m s stmt fault := by
  rcases valueType_eq_error.mp failed with failed | ⟨typed, rfl⟩
  · exact .untyped own failed
  · exact .void own typed

theorem Offends.of_condition (own : e ∈ stmt.ownExprs)
    (failed : checkCondition d s e = .error fault) : Offends d m s stmt fault := by
  rcases bind_eq_error.mp failed with failed | ⟨t, typed, h⟩
  · exact .of_valueType own failed
  · split at h
    · cases h
    · cases h
      exact .condition own (valueType_eq_ok.mp typed) ‹_›

theorem Offends.of_declare (failed : checkDeclare d s name type init = .error fault) :
    Offends d m s (.declare name type init) fault := by
  have named : ∀ {r : Except TypeFault Scope},
      r = (if !Name.isValid name then .error (.badLocalName name)
        else if s.declares name then .error (.redeclared name)
        else pure (s.declare name type)) → r = .error fault →
      Offends d m s (.declare name type init) fault := by
    rintro r rfl h
    split at h
    · rename_i invalid
      cases h
      exact .localName rfl (by simpa using invalid)
    · split at h
      · cases h
        exact .redeclared rfl ‹_›
      · cases h
  cases init with
  | none => exact named rfl failed
  | some e =>
    rcases bind_eq_error.mp failed with failed | ⟨t, typed, h⟩
    · exact .of_valueType (List.mem_singleton_self e) failed
    · by_cases same : t = type
      · rw [if_neg (not_not_intro same)] at h
        exact named rfl h
      · rw [if_pos same] at h
        cases h
        exact .initialValue rfl (valueType_eq_ok.mp typed) same

theorem Offends.of_return (failed : checkReturn d m s value = .error fault) :
    Offends d m s (.ret value) fault := by
  have other : ∀ {found : Option ScalarType}, (∀ e ∈ value, typeOf d s e = .ok found) →
      (if found = m.ret then Except.ok () else .error (.badReturn m.name m.ret found)) =
        .error fault → Offends d m s (.ret value) fault := by
    intro found typed h
    split at h
    · cases h
    · cases h
      exact .result rfl typed ‹_›
  cases value with
  | none => exact other (by simp) failed
  | some e =>
    unfold checkReturn at failed
    dsimp only at failed
    cases typed : valueType d s e with
    | error fault' =>
      rw [typed] at failed
      obtain rfl := Except.error.inj failed
      exact .of_valueType (List.mem_singleton_self e) typed
    | ok t =>
      rw [typed] at failed
      refine other (fun e' same => ?_) failed
      cases same
      exact valueType_eq_ok.mp typed

/-- A duty that fails is the fault of the statement that owes it. -/
theorem Owes.offends (owes : Owes (Stmt.flattenAll m.body) stmt duty)
    (failed : duty.check d m s = .error fault) : Offends d m s stmt fault := by
  have mapped : ∀ {α : Type} {r : Except TypeFault α},
      r.map (fun _ => ()) = .error fault → r = .error fault := by
    intro α r h
    cases r with
    | error e => exact congrArg Except.error (Except.error.inj h)
    | ok a => cases h
  have broken : ∀ {holds : Bool} {f : TypeFault},
      (if holds then Except.ok () else .error f) = .error fault → holds = false ∧ f = fault := by
    intro holds f h
    cases holds with
    | false => exact ⟨rfl, Except.error.inj h⟩
    | true => cases h
  cases owes with
  | declare name type init => exact .of_declare (mapped failed)
  | effect own => exact .untyped own (mapped failed)
  | condition own => exact .of_condition own failed
  | ret value => exact .of_return failed
  | breakLoop inLoop =>
    obtain ⟨-, rfl⟩ := broken failed
    exact .strayBreak rfl
  | continueLoop inLoop =>
    obtain ⟨-, rfl⟩ := broken failed
    exact .strayContinue rfl
  | initializer loop inside =>
    obtain ⟨other, rfl⟩ := broken failed
    exact .initializer loop inside other

/-- A fault of a body is that of a statement, in the scope of one of its tasks. -/
theorem checkBody_offends (failed : checkBody d m false 0 (.ofMethod m) m.body = .error f) :
    ∃ stmt, (stmt, f.position) ∈ Stmt.numbered m.body ∧
      ∃ t ∈ methodTasks m, t.position = f.position ∧ Offends d m t.scope stmt f.fault := by
  have performed := checkBody_performs (d := d) (m := m) false 0 (.ofMethod m) m.body
  rw [Performs, failed] at performed
  rcases bind_eq_error.mp performed.symm with stopped | ⟨-, -, h⟩
  · obtain ⟨t, member, stopped⟩ := forM_eq_error stopped
    obtain ⟨fault, found, rfl⟩ := mapError_eq_error.mp stopped
    obtain ⟨stmt, numbered, owes⟩ := methodTasks_owned m member
    exact ⟨stmt, numbered, t, member, rfl, owes.offends found⟩
  · cases h

theorem checkMethod_position (failed : checkMethod d m = .error f) (located : f.position = some p) :
    f.method = m.name ∧ checkBody d m false 0 (.ofMethod m) m.body = .error ⟨p, f.fault⟩ := by
  unfold checkMethod at failed
  split at failed
  · cases failed
    cases located
  · split at failed
    · rename_i body
      cases failed
      cases located
      exact ⟨rfl, body⟩
    · split at failed
      · cases failed
        cases located
      · cases failed

end Faults

end Typing

/-! ## Calls at fault -/

namespace CallGraph

variable {methods : List Method}

/-- The fault is a call that this method makes: of a method that is not declared, or of one that
calls the method back. -/
inductive Blames (methods : List Method) (caller : String) : CallFault → String → Prop
  | undeclared {site : CallSite} (missing : ¬Declared methods site.callee) :
      Blames methods caller (.undeclaredCallee caller site) site.callee
  | recursion {members : List String} {position : Option Nat} {callee : String}
      (first : members.head? = some caller) (inside : callee ∈ members)
      (back : (methods.map Method.name).Nodup → Mutual methods caller callee) :
      Blames methods caller (.recursion members position) callee

theorem linearize_eq_error (failed : linearize methods entry = .error fault) :
    match fault with
    | .undeclaredEntry _ => True
    | .undeclaredCallee name site =>
      ∃ m ∈ methods, m.name = name ∧ site ∈ m.callSites ∧ ¬Declared methods site.callee
    | .recursion members position =>
      position = (do
        let first ← members.head?
        let m ← find? methods first
        (m.callSites.find? fun s => members.contains s.callee).map CallSite.position) := by
  unfold linearize at failed
  split at failed
  · cases failed
    trivial
  · split at failed
    · rename_i fault missing
      cases failed
      obtain ⟨m, member, first⟩ := List.exists_of_findSome?_eq_some missing
      obtain ⟨site', found, same⟩ := map_eq_some_iff.mp first
      cases same
      have unknown := List.find?_some found
      rw [isNone_iff_eq_none, ← not_isSome_iff_eq_none, find?_isSome] at unknown
      exact ⟨m, member, rfl, List.mem_of_find?_eq_some found, unknown⟩
    · dsimp only at failed
      split at failed
      · cases failed
        rfl
      · cases failed

theorem linearize_blames (failed : linearize methods entry = .error fault)
    (method : (fault.diagnose kernel).method = some name)
    (position : (fault.diagnose kernel).position = some p) :
    ∃ m ∈ methods, m.name = name ∧ ∃ stmt, (stmt, p) ∈ Stmt.numbered m.body ∧
      ∃ callee ∈ stmt.callees, Blames methods name fault callee := by
  cases fault with
  | undeclaredEntry entry => cases method
  | undeclaredCallee caller site =>
    cases method
    cases position
    obtain ⟨m, member, named, listed, missing⟩ := linearize_eq_error failed
    obtain ⟨stmt, numbered, called⟩ := Method.mem_callSites.mp listed
    exact ⟨m, member, named, stmt, numbered, _, called, .undeclared missing⟩
  | recursion members found =>
    have first : members.head? = some name := method
    have located : found = some p := position
    have reported : found = _ := linearize_eq_error failed
    rw [located, first] at reported
    obtain ⟨_, ⟨⟩, reported⟩ := bind_eq_some_iff.mp reported.symm
    obtain ⟨m, known, reported⟩ := bind_eq_some_iff.mp reported
    obtain ⟨site, earliest, rfl⟩ := map_eq_some_iff.mp reported
    obtain ⟨member, named⟩ := find?_sound known
    obtain ⟨stmt, numbered, called⟩ :=
      Method.mem_callSites.mp (List.mem_of_find?_eq_some earliest)
    have inside : site.callee ∈ members := by simpa using List.find?_some earliest
    refine ⟨m, member, named, stmt, numbered, site.callee, called, .recursion first inside ?_⟩
    intro distinct
    have ending := linearize_ending distinct entry
    rw [failed] at ending
    cases ending with
    | cycle declared resolved report =>
      obtain ⟨a, -, -, exactly⟩ := report.component
      have here := (exactly name).mp (List.mem_of_head? first)
      have there := (exactly site.callee).mp inside
      exact ⟨here.2.trans there.1, there.2.trans here.1⟩

end CallGraph

/-! ## Positions -/

/-- The position is the ordinal of the statement, and the listing's span of that ordinal is over its
header. -/
structure Method.PointsAt (m : Method) (p : Nat) (stmt : Stmt) : Prop where
  ordinal : (stmt, p) ∈ Stmt.numbered m.body
  span : ∃ span, m.listing.spans[p]? = some span ∧ span.Selects m.listing.text stmt.header

theorem Method.pointsAt {m : Method} {p : Nat} {stmt : Stmt}
    (numbered : (stmt, p) ∈ Stmt.numbered m.body) : m.PointsAt p stmt :=
  ⟨numbered, m.listing_covers.selects_at (List.mem_zipIdx_iff_getElem?.mp numbered)⟩

/-- Every method's listing has a span for each statement. A fault of the call graph is reported at a
statement that itself makes the call, a typing fault at the statement that is wrong by itself. -/
theorem positions_point_at_faults :
    (∀ m : Method, m.listing.Covers (Stmt.flattenAll m.body)) ∧
      (∀ (schema : Schema) (fault : CallFault) (name : String) (p : Nat),
        CallGraph.linearize schema.methods schema.entry = .error fault →
        (fault.diagnose schema.name).method = some name →
        (fault.diagnose schema.name).position = some p →
        ∃ m ∈ schema.methods, m.name = name ∧ ∃ stmt, m.PointsAt p stmt ∧
          ∃ callee ∈ stmt.callees, CallGraph.Blames schema.methods name fault callee) ∧
      ∀ (d : Descriptor) (fault : Typing.MethodFault) (name : String) (p : Nat),
        Typing.check d = .error fault →
        (fault.diagnose d.name).method = some name →
        (fault.diagnose d.name).position = some p →
        ∃ m ∈ d.methods, m.name = name ∧ ∃ stmt, m.PointsAt p stmt ∧
          ∃ t ∈ Typing.methodTasks m, t.position = p ∧
            Typing.Offends d m t.scope stmt fault.fault := by
  refine ⟨Method.listing_covers, ?_, ?_⟩
  · intro schema fault name p failed method position
    obtain ⟨m, member, named, stmt, numbered, blamed⟩ :=
      CallGraph.linearize_blames failed method position
    exact ⟨m, member, named, stmt, Method.pointsAt numbered, blamed⟩
  · intro d fault name p failed method position
    obtain ⟨m, member, failed⟩ := forM_eq_error failed
    obtain ⟨named, failed⟩ := Typing.checkMethod_position failed position
    obtain ⟨stmt, numbered, offends⟩ := Typing.checkBody_offends failed
    have same : fault.method = name := Option.some.inj method
    exact ⟨m, member, named.symm.trans same, stmt, Method.pointsAt numbered, offends⟩

/-- `int n; for (int i = 0, break; ; ) { x; }`: the fault comes before the one in the body. -/
def strayInitializer : Descriptor where
  name := "K"
  fields := []
  main := { name := "run", body := [.declare "n" .int none,
    .forLoop [.declare "i" .int (some (.int 0)), .breakLoop] none [] [.expr (.var "x")]] }
  helpers := []

theorem faults_located :
    (∃ m ∈ strayInitializer.methods, m.name = "run" ∧ ∃ stmt, m.PointsAt 3 stmt ∧
      ∃ t ∈ Typing.methodTasks m, t.position = 3 ∧
        Typing.Offends strayInitializer m t.scope stmt .badInitializer) ∧
    ∃ m ∈ CallGraph.crossedMethods, m.name = "z" ∧ ∃ stmt, m.PointsAt 1 stmt ∧
      ∃ callee ∈ stmt.callees, CallGraph.Blames CallGraph.crossedMethods "z"
        (.recursion ["z", "w"] (some 1)) callee := by
  have untyped : Typing.check strayInitializer = .error ⟨"run", some 3, .badInitializer⟩ := by decide
  obtain ⟨-, calls, typing⟩ := positions_point_at_faults
  constructor
  · exact typing strayInitializer _ "run" 3 untyped rfl rfl
  · exact calls { name := "K", methods := CallGraph.crossedMethods, entry := "x" } _ "z" 1 rfl rfl rfl

end GridKernel
