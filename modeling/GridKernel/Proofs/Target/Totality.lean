import GridKernel.Proofs.Target.Bodies
import GridKernel.Proofs.Target.Questions

/-!
# Checked kernels have a translation

Compiling fails exactly if the check does. The translation keeps scopes of its own; whenever it
asks for a type, the checker was at the same statement in the same scope, and gave a type there to
the whole expression and so to each of its parts.
-/

namespace GridKernel.Target

open List Outcome

/-! ## The checker was there -/

/-- At the same statement and in the same scope the checker gives a type to an expression that
the question is about a part of. -/
def Question.Served (q : Question) (tasks : List Typing.Task) : Prop :=
  ∃ t ∈ tasks, t.position = q.position ∧ t.scope = q.scope ∧
    ∃ e ∈ t.duty.exprs, q.subject.Among e.nodes

/-- Each question is served by one of the tasks. -/
def AllServed (tasks : List Typing.Task) (questions : List Question) : Prop :=
  ∀ q ∈ questions, q.Served tasks

namespace AllServed

theorem mono (h : AllServed tasks l) (inside : tasks ⊆ tasks') : AllServed tasks' l := by
  intro q member
  obtain ⟨t, found, same⟩ := h q member
  exact ⟨t, inside found, same⟩

theorem append (first : AllServed tasks l) (second : AllServed tasks' l') :
    AllServed (tasks ++ tasks') (l ++ l') := by
  intro q member
  rcases mem_append.mp member with member | member
  · exact first.mono (subset_append_left _ _) q member
  · exact second.mono (subset_append_right _ _) q member

/-- One task for each expression. -/
theorem own (duty : GridKernel.Expr → Typing.Duty) (about : ∀ e, e ∈ (duty e).exprs) (p s es) :
    AllServed (es.map fun e => ⟨p, s, duty e⟩) (asksAt p s es) := by
  intro q member
  obtain ⟨subject, asked, rfl⟩ := mem_map.mp member
  obtain ⟨e, inside, asked⟩ := mem_flatMap.mp asked
  exact ⟨_, mem_map_of_mem inside, rfl, rfl, e, about e, asks_among e subject asked⟩

theorem condition (p s es) : AllServed (es.map fun e => ⟨p, s, .condition e⟩) (asksAt p s es) :=
  own _ (fun _ => mem_cons_self) p s es

theorem effect (p s es) : AllServed (es.map fun e => ⟨p, s, .effect e⟩) (asksAt p s es) :=
  own _ (fun _ => mem_cons_self) p s es

end AllServed

mutual

/-- By induction on statements: both sides go through the same scopes. -/
theorem stmt_served (inLoop : Bool) (p : Nat) (s : Scope) : ∀ st : GridKernel.Stmt,
    AllServed (Typing.stmtTasks inLoop p s st) (stmtAsks p s st)
  | .declare _ _ none => nofun
  | .declare name type (some init) =>
    .own (fun e => .declare name type (some e)) (fun _ => mem_cons_self) p s [init]
  | .expr e => .effect p s [e]
  | .branch cond thenBody elseBody =>
    .append (.condition p s [cond])
      ((body_served inLoop _ s.push thenBody).append (body_served inLoop _ s.push elseBody))
  | .whileLoop cond body => .append (.condition p s [cond]) (body_served true _ s.push body)
  | .doWhile body cond => (body_served true _ s.push body).append (.condition p s [cond])
  | .forLoop init cond update body => by
    refine (inits_served inLoop _ s.push init).append ?_
    refine .append (.condition p _ cond.toList) (.append (.effect p _ update) ?_)
    exact body_served true _ _ body
  | .breakLoop | .continueLoop | .ret none => nofun
  | .ret (some value) =>
    .own (fun e => .ret (some e)) (fun _ => mem_cons_self) p s [value]
  | .block body => body_served inLoop _ s.push body

theorem body_served (inLoop : Bool) (p : Nat) (s : Scope) : ∀ stmts : List GridKernel.Stmt,
    AllServed (Typing.bodyTasks inLoop p s stmts) (bodyAsks p s stmts)
  | [] => nofun
  | st :: rest =>
    (stmt_served inLoop p s st).append (body_served inLoop _ (st.scopeAfter s) rest)

theorem inits_served (inLoop : Bool) (p : Nat) (s : Scope) : ∀ stmts : List GridKernel.Stmt,
    AllServed (Typing.initTasks inLoop p s stmts) (bodyAsks p s stmts)
  | [] => nofun
  | st :: rest => by
    have both := (stmt_served inLoop p s st).append
      (inits_served inLoop (p + st.flatten.length) (st.scopeAfter s) rest)
    exact both.mono (subset_cons_self _ _)

end

/-! ## Compilation -/

theorem methodBody_of_checked (checked : Typing.check d = .ok ()) (member : m ∈ d.methods) :
    ∃ b, methodBody d m = .ok b := by
  obtain ⟨b, emits, -⟩ :=
    faithful_method (c := ⟨d, [], ⟨⟨0, 0, 0⟩, ⟨1, 1, 1⟩, ⟨1, 1, 1⟩, 0⟩⟩) checked member
  exact ⟨b, emits⟩

theorem program_of_checked (checked : Typing.check d = .ok ()) : ∃ p, program d = .ok p := by
  obtain ⟨body, main⟩ := methodBody_of_checked checked mem_cons_self
  have others : ∃ helpers, d.helpers.mapM (helper d) = .ok helpers := by
    refine mapM_of_each fun m member => ?_
    obtain ⟨b, emits⟩ := methodBody_of_checked checked (mem_cons_of_mem _ member)
    exact ⟨_, bind_eq_ok.mpr ⟨b, emits, rfl⟩⟩
  obtain ⟨helpers, others⟩ := others
  exact ⟨_, bind_eq_ok.mpr ⟨helpers, others, bind_eq_ok.mpr ⟨body, main, rfl⟩⟩⟩

theorem compile_of_program (checked : Typing.check d = .ok ()) (emits : program d = .ok p) :
    d.compile = .ok ⟨d.entry, p.text⟩ := by
  simp only [Descriptor.compile, checked, emits]
  rfl

theorem compile_of_fault (failed : Typing.check d = .error fault) :
    d.compile = .error (.typing fault) := by
  simp only [Descriptor.compile, failed]
  rfl

/-- In a method of a checked kernel all tasks are done. -/
theorem task_done (checked : Typing.check d = .ok ()) (member : m ∈ d.methods)
    (listed : t ∈ Typing.methodTasks m) : t.duty.check d m t.scope = .ok () := by
  obtain ⟨⟨s, body⟩, -⟩ := Typing.checkMethod_eq_ok (forM_eq_ok checked member)
  rw [Typing.checkBody_performs] at body
  obtain ⟨⟨⟩, done, -⟩ := bind_eq_ok.mp body
  have located := forM_eq_ok done listed
  exact Typing.locate_eq_ok.mp located

/-- All questions about a method of a checked kernel have an answer. -/
theorem question_answered (checked : Typing.check d = .ok ()) (member : m ∈ d.methods)
    (asked : q ∈ methodAsks m) : ∃ type, q.subject.type d q.scope = .ok type := by
  obtain ⟨b, emits⟩ := methodBody_of_checked checked member
  have all := methodBody_asks d m
  rw [emits] at all
  have answered : q.ask d = .ok () := forM_eq_ok all.symm asked
  cases found : q.subject.type d q.scope with
  | error fault =>
    rw [Question.ask, Subject.ask, found] at answered
    cases answered
  | ok type => exact ⟨type, rfl⟩

/-- The place that an expression stores into. -/
def target? : GridKernel.Expr → Option (Place GridKernel.Expr)
  | .assign target _ _ => some target
  | .step target _ _ => some target
  | _ => none

theorem target_hasType (typed : Typing.HasType d s e) (stores : target? e = some p) :
    ∃ type, Typing.placeType d s p = .ok type := by
  obtain ⟨result, typed⟩ := typed
  cases e with
  | assign target op value =>
    obtain ⟨t, -, -, place, -⟩ := Typing.typeOf_assign typed
    cases stores
    exact ⟨t, place⟩
  | step target op before =>
    obtain ⟨t, -, place, -⟩ := Typing.typeOf_step typed
    cases stores
    exact ⟨t, place⟩
  | _ => cases stores

end GridKernel.Target

namespace GridKernel.Descriptor

open Target

/-- Compiling fails exactly if the check does, and with its fault. A checked kernel is translated;
the check of a method is going through its tasks and the translation is asking its questions, and
each question is asked in the scope in which the checker gave types to all parts of an expression
that the question is about a part of. -/
theorem compile_fails_iff_check_fails (d : Descriptor) :
    (∀ fault, d.compile = .error fault ↔
      ∃ f, Typing.check d = .error f ∧ fault = .typing f) ∧
    (∀ m,
      Typing.checkBody d m false 0 (.ofMethod m) m.body =
        (forM (Typing.methodTasks m) (Typing.Task.check d m) >>= fun _ =>
          .ok (Stmt.scopeAfterAll (.ofMethod m) m.body)) ∧
      (methodBody d m).map (fun _ => ()) = forM (methodAsks m) (Question.ask d)) ∧
    (Typing.check d = .ok () →
      (∃ p, program d = .ok p ∧ d.compile = .ok ⟨d.entry, p.text⟩) ∧
      ∀ m ∈ d.methods, ∀ q ∈ methodAsks m,
        (∃ type, q.subject.type d q.scope = .ok type) ∧
        ∃ t ∈ Typing.methodTasks m, t.position = q.position ∧ t.scope = q.scope ∧
          ∃ e ∈ t.duty.exprs, q.subject.Among e.nodes ∧
            ∀ n ∈ e.nodes, (∃ result, Typing.typeOf d t.scope n = .ok result) ∧
              ∀ p, target? n = some p → ∃ type, Typing.placeType d t.scope p = .ok type) := by
  refine ⟨fun fault => ?_, fun m => ⟨?_, methodBody_asks d m⟩, fun checked => ⟨?_, ?_⟩⟩
  · cases outcome : Typing.check d with
    | error f =>
      rw [compile_of_fault outcome]
      exact ⟨fun h => ⟨f, rfl, (Except.error.inj h).symm⟩, fun ⟨_, same, h⟩ => by
        rw [h, Except.error.inj same]⟩
    | ok u =>
      obtain ⟨p, emits⟩ := program_of_checked outcome
      rw [compile_of_program outcome emits]
      constructor
      · intro failed
        cases failed
      · rintro ⟨f, failed, -⟩
        cases failed
  · exact Typing.checkBody_performs false 0 (.ofMethod m) m.body
  · obtain ⟨p, emits⟩ := program_of_checked checked
    exact ⟨p, emits, compile_of_program checked emits⟩
  · intro m member q asked
    refine ⟨question_answered checked member asked, ?_⟩
    obtain ⟨t, listed, position, scope, e, about, part⟩ := body_served false 0 _ m.body q asked
    have typed := Typing.Duty.exprs_haveType (task_done checked member listed) e about
    refine ⟨t, listed, position, scope, e, about, part, fun n inside => ?_⟩
    have own := Typing.nodes_haveType e typed n inside
    exact ⟨own, fun p stores => target_hasType own stores⟩

/-- A local of another type in a `for`: `int i = 0; for (long i = 4L; i > 0L; i--) { int j = (int)
i; a[j++]++; } a[i = 1] += i++;`. -/
def shadowedMain : Method where
  name := "run"
  body :=
    [.declare "i" .int (some (.int 0)),
      .forLoop [.declare "i" .long (some (.literal (.long 4)))]
        (some (.binary .gt (.var "i") (.literal (.long 0)))) [.step (.var "i") .dec false]
        [.declare "j" .int (some (.cast .int (.var "i") false)),
          .expr (.step (.element "a" (.step (.var "j") .inc false)) .inc false)],
      .expr (.assign (.element "a" (.assign (.var "i") none (.int 1))) (some .add)
        (.step (.var "i") .inc false))]

def shadowedSchema : Schema where
  name := "Shadowed"
  fields := [{ name := "a", type := .scalar .int, shape := .array }]
  methods := [shadowedMain]

def shadowedKernel : Descriptor :=
  ⟨"Shadowed", [⟨"a", .scalar .int, .array, .global, .readWrite⟩], shadowedMain, []⟩

/-- Without the outer local the last statement has none. -/
def strayKernel : Descriptor :=
  { shadowedKernel with main := { shadowedMain with body := shadowedMain.body.tail } }

theorem shadowed_locals_compile :
    shadowedSchema.build = .ok shadowedKernel ∧ Typing.check shadowedKernel = .ok () ∧
      (∃ p, program shadowedKernel = .ok p ∧ shadowedKernel.compile = .ok ⟨"run", p.text⟩) ∧
      (methodAsks shadowedMain).map (fun q => (q.position, q.scope.lookup? "i")) =
        [(1, some .long), (3, some .long), (4, some .long), (5, some .int), (5, some .int)] ∧
      (∀ q ∈ methodAsks shadowedMain, ∃ t ∈ Typing.methodTasks shadowedMain,
        t.position = q.position ∧ t.scope = q.scope) ∧
      strayKernel.compile = .error (.typing ⟨"run", some 4, .undeclaredLocal "i"⟩) := by
  have checked : Typing.check shadowedKernel = .ok () := by decide
  have stray : Typing.check strayKernel = .error ⟨"run", some 4, .undeclaredLocal "i"⟩ := by decide
  obtain ⟨emits, each⟩ := (compile_fails_iff_check_fails shadowedKernel).2.2 checked
  refine ⟨rfl, checked, emits, rfl, fun q asked => ?_, ?_⟩
  · obtain ⟨-, t, listed, position, scope, -⟩ := each shadowedMain List.mem_cons_self q asked
    exact ⟨t, listed, position, scope⟩
  · exact ((compile_fails_iff_check_fails strayKernel).1 _).mpr ⟨_, stray, rfl⟩

end GridKernel.Descriptor
