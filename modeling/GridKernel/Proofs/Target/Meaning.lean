import GridKernel.Proofs.Target.Atomics
import GridKernel.Proofs.Typing.Preservation

/-!
# Translated expressions mean the same

Every expression with a type has a translation, and wherever evaluating the expression yields a
value, running the translation yields the same value and the same state in every order that C
allows. There is one gap. An index stays where it is when an element is read, or when a literal is
stored into it. If such an index assigns to the array it belongs to, nothing puts that store in
sequence with the access to the element, and the two conflict if they meet in one element.
-/

namespace GridKernel.Target

open Eval (Context Machine Matches)
open Typing (typeOf check)

variable {c : Context} {s : Scope}

section

variable (checked : check c.descriptor = .ok ())
include checked

set_option linter.unusedSectionVars false in
mutual

/-- By induction on expressions; what each form adds to its parts is in the lemma of the form. -/
theorem faithful : ∀ e, Faithful c s e
  | .literal v => faithful_literal v
  | .var name => faithful_var name
  | .field name => faithful_field name
  | .element array index => faithful_element (faithful index) array
  | .length array => faithful_length array
  | .binary op lhs rhs => by
    cases strict : op.isShortCircuit with
    | true => exact faithful_logical checked strict (faithful lhs) (faithful rhs)
    | false => exact faithful_binary checked strict (faithful lhs) (faithful rhs)
  | .unary op operand => faithful_unary (faithful operand) op
  | .conditional cond thenValue elseValue =>
    faithful_conditional checked (faithful cond) (faithful thenValue)
      (faithful elseValue)
  | .cast type value implicit => faithful_cast checked (faithful value) type implicit
  | .assign (.var name) none value => faithful_assign_var checked (faithful value) name
  | .assign (.field name) none value => faithful_assign_field checked (faithful value) name
  | .assign (.element array index) none value =>
    faithful_assign_element checked (faithful index) (faithful value) array
  | .assign target (some op) value =>
    faithful_compound checked (faithful_place target) (faithful value) op
  | .step target op before => faithful_step checked (faithful_place target) op before
  | .call method args => faithful_call checked (faithful_all args) method
  | .atomic op ⟨name, none⟩ args => faithful_atomic checked (faithful_all args) op name
  | .atomic op ⟨name, some index⟩ args =>
    faithful_atomic checked
      (List.forall_mem_cons.mpr ⟨@faithful index, faithful_all args⟩) op name
  | .builtin func args => faithful_builtin checked (faithful_all args) func

theorem faithful_place : ∀ p, FaithfulPlace c s p
  | .var _ | .field _ => trivial
  | .element _ index => faithful index

theorem faithful_all :
    ∀ es : List GridKernel.Expr, ∀ e ∈ es, Faithful c s e
  | [] => List.forall_mem_nil _
  | e :: rest => List.forall_mem_cons.mpr ⟨faithful e, faithful_all rest⟩

end

end

/-- What a translated expression does from a state in which every local holds a value. -/
theorem Runs.ends {em : Emitted} (set : start.unset = [])
    (h : Runs c steps types em nodes lo hi start.machine start.temps v m') :
    Ensures (em.run c steps types) start
      (fun w after => w = v ∧ after.machine = m' ∧ after.unset = [] ∧
        Outside lo hi start.temps after.temps)
      fun fault _ => fault = .conflict ∧ SelfIndexed nodes := by
  obtain ⟨mid, T₁, -, ⟨before, outside⟩, yields⟩ := h
  obtain ⟨T₂, outside', taken⟩ := yields T₁ (.refl hi T₁)
  refine Ensures.andThen (before start ⟨rfl, rfl, set⟩) ?_
  rintro _ s₁ ⟨-, at₁⟩
  refine Ensures.andThen (taken s₁ at₁) ?_
  rintro ⟨w, acc⟩ s₂ ⟨busy, machine, temps, unset⟩
  exact Ensures.ret ⟨busy.value, machine, unset, temps ▸ outside.trans outside'⟩

/-- Without effects an expression is translated in place. -/
theorem plain_translation (checked : check d = .ok ()) (typed : typeOf d s e = .ok (some t))
    (plain : e.hasEffects = false) (temps) :
    ∃ em, expr d s e temps = .ok (em, temps) ∧ em.pre = [] := by
  obtain ⟨em, temps', rendered⟩ :=
    faithful (c := ⟨d, [], ⟨⟨0, 0, 0⟩, ⟨1, 1, 1⟩, ⟨1, 1, 1⟩, 0⟩⟩) checked e typed temps
  obtain ⟨inPlace, rfl⟩ := rendered.plain plain
  exact ⟨em, rendered.translation, inPlace⟩

/-- An expression that counts as free of effects is so on both sides. Its evaluation leaves the
machine as it was, locals, fields, elements and slots, whether it yields a value or stops, and its
translation has nothing in front of it and takes no temporary. -/
theorem effect_free_on_both_sides {d : Descriptor} (checked : check d = .ok ()) {scope : Scope}
    {e : GridKernel.Expr} {t : Option ScalarType} (typed : typeOf d scope e = .ok t)
    (plain : e.hasEffects = false) :
    (∀ (bound : List Bound) (item : WorkItem) (n : Nat) (m : Machine),
      Ensures (Eval.eval ⟨d, bound, item⟩ n e) m (fun _ m' => m' = m) fun _ m' => m' = m) ∧
    ∀ temps, ∃ em, expr d scope e temps = .ok (em, temps) ∧ em.pre = [] := by
  refine ⟨fun bound item n m => Eval.plain_goes plain m, fun temps => ?_⟩
  cases t with
  | some t => exact plain_translation checked typed plain temps
  | none =>
    -- Only calls have no value, and they count as effects.
    obtain ⟨name, args, rfl⟩ := Typing.typeOf_none typed
    cases plain

/-- A kernel with one array of integers. -/
def arrayDescriptor (main : Method) : Descriptor :=
  ⟨"Array", [⟨"a", .scalar .int, .array, .global, .readWrite⟩], main, []⟩

def arraySchema (main : Method) : Schema where
  name := "Array"
  fields := [{ name := "a", type := .scalar .int, shape := .array }]
  methods := [main]

def arrayContext (main : Method) : Context where
  descriptor := arrayDescriptor main
  bound := [.array 0]
  item := ⟨⟨0, 0, 0⟩, ⟨1, 1, 1⟩, ⟨1, 1, 1⟩, 0⟩

/-- A work-item with two elements in the array. -/
def arrayMachine (first second : UInt64) (locals : Eval.Frame) : Machine where
  memory := { buffers := #[⟨.int, #[first, second]⟩] }
  locals := locals

theorem arrayMachine_matches (main first second locals) :
    Matches (arrayContext main) ⟨[locals.types]⟩ (arrayMachine first second locals) := by
  refine ⟨[], .of_split (List.append_nil _).symm rfl (List.append_nil _).symm nofun ?_⟩
  intro k f declared
  match k, declared with
  | 0, rfl => exact ⟨.array 0, rfl, .array rfl rfl rfl⟩

/-- `a[i] = i++`: the element must be found before the local changes. -/
def countedStore : GridKernel.Expr :=
  .assign (.element "a" (.var "i")) none (.step (.var "i") .inc false)

def countedMain : Method where
  name := "run"
  body := [.declare "i" .int (some (.int 0)), .expr countedStore]

def countedScope : Scope := ⟨[[("i", .int)]]⟩

/-- `a[i] / (a[0] - 7)`, which stops if the first element is 7. -/
def quotient : GridKernel.Expr :=
  .binary .div (.element "a" (.var "i")) (.binary .sub (.element "a" (.int 0)) (.int 7))

/-- The division stops, and nothing has changed. -/
theorem quotient_effect_free :
    (∃ m', Eval.eval (arrayContext countedMain) 9 quotient (arrayMachine 7 9 [("i", .int 1)]) =
        .error (.trap .divisionByZero) m' ∧ m' = arrayMachine 7 9 [("i", .int 1)]) ∧
      ∃ em, expr (arrayDescriptor countedMain) countedScope quotient [.int] = .ok (em, [.int]) ∧
        em.pre = [] := by
  have checked : check (arrayDescriptor countedMain) = .ok () := rfl
  have typed : typeOf (arrayDescriptor countedMain) countedScope quotient = .ok (some .int) := rfl
  obtain ⟨evaluated, emits⟩ := effect_free_on_both_sides checked typed rfl
  have same := evaluated [.array 0] (arrayContext countedMain).item 9 (arrayMachine 7 9 [("i", .int 1)])
  exact ⟨⟨_, rfl, same.of_error rfl⟩, emits [.int]⟩

end GridKernel.Target
