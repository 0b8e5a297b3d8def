import GridKernel.Proofs.Target.Blocks

/-!
# Translated loops

A loop is followed round by round, by induction on the steps that its evaluation takes. What the
condition of a loop needs to run first is joined to it by commas, so it runs again in each round.
-/

namespace GridKernel.Target

open List
open Eval (Context Machine Holds Flow)
open Typing (typeOf check)

section

variable {c : Context} {s : Scope} {e : GridKernel.Expr}

variable {o : Option GridKernel.Expr} {es : List GridKernel.Expr}

section

variable {steps n : Nat} {types temps temps' : Temps} {callers : Eval.Frame} {m m' : Machine}
  {itself : Prop} {em : Emitted} {b : Bool} {stmts : List GridKernel.Stmt}

/-- A loop is followed if each round is: the round ends the loop, or the rest of the loop comes
after it. -/
theorem rounds_follow (loop : Nat → Eval.Comp Flow) {round : Exec (Option Flow)}
    (out : loop 0 = Eval.exhausted)
    (step : ∀ {n m}, n ≤ steps → Holds c s.names callers m → loop (n + 1) m = .ok flow m' →
      (Follows itself m round (· = some flow) m' ∧ Holds c s.names callers m') ∨
      ∃ m₁, Follows itself m round (· = none) m₁ ∧ Holds c s.names callers m₁ ∧
        loop n m₁ = .ok flow m')
    (enough : n ≤ steps) (left : n ≤ k) (holds : Holds c s.names callers m)
    (ended : loop n m = .ok flow m') :
    Follows itself m (rounds round k) (· = flow) m' ∧ Holds c s.names callers m' := by
  induction n generalizing m k with
  | zero =>
    rw [out] at ended
    cases ended
  | succ n ih =>
    obtain ⟨k, rfl⟩ : ∃ j, k = j + 1 := ⟨k - 1, by omega⟩
    have enough : n ≤ steps := by omega
    rcases step enough holds ended with ⟨last, holds'⟩ | ⟨m₁, next, holds₁, rest⟩
    · exact ⟨last.eq_andThen (.ret rfl), holds'⟩
    · obtain ⟨later, holds'⟩ := ih (k := k) enough (by omega) holds₁ rest
      exact ⟨next.eq_andThen later, holds'⟩

/-- The condition of a loop. -/
theorem Rendered.condition (checked : check c.descriptor = .ok ())
    (h : Rendered c s e .boolean temps em temps') (inside : temps' <+: types) (enough : n ≤ steps)
    (holds : Holds c s.names callers m) (evaluated : Eval.eval c n e m = .ok (.boolean b) m₁)
    (clash : SelfIndexed e.nodes → itself) :
    Follows itself m (test c steps types em.inline) (· = b) m₁ ∧
      Holds c s.names callers m₁ :=
  ⟨test_follows (Runs.inline (h.runs inside enough holds evaluated) clash),
    (((Eval.sound checked n).value h.type holds).of_ok evaluated).2⟩

/-- The condition of a `for`; without one the rounds go on. -/
def goesOn (c : Context) (n : Nat) : Option GridKernel.Expr → Eval.Comp Bool
  | none => return true
  | some e => do Eval.truth (← Eval.eval c n e)

theorem forLoop_eq (o es) :
    Eval.forLoop c (n + 1) o es stmts = (do
      if ← goesOn c n o then
        match ← Eval.block c n stmts with
        | .broke => return .normal
        | .returned v => return .returned v
        | _ => do
          let _ ← Eval.evalAll c n es
          Eval.forLoop c n o es stmts
      else return .normal) := by
  cases o with
  | none => rfl
  | some e => exact (bind_assoc (Eval.eval c n e) Eval.truth _).symm

/-- The condition of a `for` is translated. -/
structure RenderedOption (c : Context) (s : Scope) (o : Option GridKernel.Expr) (temps : Temps)
    (o' : Option Expr) (temps' : Temps) : Prop where
  translation : inlineOption c.descriptor s o temps = .ok (o', temps')
  grows : temps <+: temps'
  follows : ∀ {types n steps callers m b m' itself}, temps' <+: types → n ≤ steps →
    Holds c s.names callers m → goesOn c n o m = .ok b m' →
    (SelfIndexed (Expr.optionNodes o) → itself) →
    Follows itself m (testOption c steps types o') (· = b) m' ∧ Holds c s.names callers m'

theorem rendered_option (checked : check c.descriptor = .ok ())
    (typed : ∀ e, o = some e → typeOf c.descriptor s e = .ok (some .boolean)) (temps) :
    ∃ o' temps', RenderedOption c s o temps o' temps' := by
  cases o with
  | none =>
    refine ⟨none, temps, rfl, prefix_rfl, ?_⟩
    intro types n steps callers m b m' itself inside enough holds ended clash
    cases ended
    exact ⟨.ret rfl, holds⟩
  | some e =>
    obtain ⟨em, temps', rendered⟩ := faithful checked e (typed e rfl) temps
    refine ⟨some em.inline, temps', emit_bind rendered.translation, rendered.grows, ?_⟩
    intro types n steps callers m b m' itself inside enough holds ended clash
    obtain ⟨v, m₁, evaluated, decided⟩ := bind_ok ended
    obtain ⟨rfl, rfl⟩ := boolean_of_truth decided
    exact rendered.condition checked inside enough holds evaluated clash

/-- The updates of a `for` are translated. -/
structure RenderedAll (c : Context) (s : Scope) (es : List GridKernel.Expr) (temps : Temps)
    (es' : List Expr) (temps' : Temps) : Prop where
  translation : inlineAll c.descriptor s es temps = .ok (es', temps')
  grows : temps <+: temps'
  follows : ∀ {types n steps callers m vs m' itself}, temps' <+: types → n ≤ steps →
    Holds c s.names callers m → Eval.evalAll c n es m = .ok vs m' →
    (SelfIndexed (GridKernel.Expr.listNodes es) → itself) →
    Follows itself m (execInOrder c steps types es') (fun _ => True) m' ∧
      Holds c s.names callers m'

theorem rendered_all (checked : check c.descriptor = .ok ())
    (typed : Typing.checkUpdates c.descriptor s es = .ok ()) (temps) :
    ∃ es' temps', RenderedAll c s es temps es' temps' := by
  induction es generalizing temps with
  | nil =>
    refine ⟨[], temps, rfl, prefix_rfl, ?_⟩
    intro types n steps callers m vs m' itself inside enough holds ended clash
    cases n with
    | zero => cases ended
    | succ n =>
      cases ended
      exact ⟨.ret trivial, holds⟩
  | cons e rest ih =>
    obtain ⟨⟨result, first⟩, others⟩ := Typing.checkUpdates_cons typed
    cases result with
    | some t =>
      obtain ⟨em, temps₁, rendered⟩ := faithful checked e first temps
      obtain ⟨es', temps', all⟩ := ih others temps₁
      refine ⟨em.inline :: es', temps',
        (emit_bind rendered.translation).trans (emit_bind all.translation),
        rendered.grows.trans all.grows, ?_⟩
      intro types n steps callers m vs m' itself inside enough holds ended clash
      cases n with
      | zero => cases ended
      | succ n =>
        have enough : n ≤ steps := Nat.le_of_lt enough
        obtain ⟨v, m₁, evaluated, later⟩ := bind_ok ended
        obtain ⟨vs, m₂, evaluated', finished⟩ := bind_ok later
        cases finished
        have holds₁ := (((Eval.sound checked n).value first holds).of_ok evaluated).2
        have runs := rendered.runs (all.grows.trans inside) enough holds evaluated
        have clash₁ (nodes : SelfIndexed e.nodes) : itself :=
          clash (nodes.mono fun _ => mem_append_left _)
        obtain ⟨later, holds₂⟩ := all.follows inside enough holds₁ evaluated' fun nodes =>
          clash (nodes.mono fun _ => mem_append_right _)
        exact ⟨(Runs.inline runs clash₁).andThen fun _ _ => later.andThen fun _ _ => .ret trivial,
          holds₂⟩
    | none =>
      -- Without a value the call is translated, but evaluating the update stops.
      obtain ⟨name, args, rfl⟩ := Typing.typeOf_none first
      obtain ⟨ems, temps₁, laid, translation⟩ := void_laid checked first temps
      obtain ⟨es', temps', all⟩ := ih others temps₁
      refine ⟨_, temps', (emit_bind translation).trans (emit_bind all.translation),
        laid.grows.trans all.grows, ?_⟩
      intro types n steps callers m vs m' itself inside enough holds ended clash
      cases n with
      | zero => cases ended
      | succ n =>
        obtain ⟨v, m₁, evaluated, -⟩ := bind_ok ended
        exact absurd evaluated (Eval.void_call_stops checked first holds)

section

-- The body of the loop is followed by its translation, and leaves the locals as they were.
variable (block : ∀ {n m flow m'}, n ≤ steps → Holds c s.names callers m →
  Eval.block c n stmts m = .ok flow m' →
  Follows itself m (enclosed (execStmts c steps types out)) (· = flow) m' ∧
    Holds c s.names callers m')
include block

section

variable (checked : check c.descriptor = .ok ()) (cond : Rendered c s e .boolean temps em temps')
  (inside : temps' <+: types) (clash : SelfIndexed e.nodes → itself) (enough : n ≤ steps)
  (holds : Holds c s.names callers m)
include checked cond inside clash enough holds

theorem while_follows (ended : Eval.whileLoop c n e stmts m = .ok flow m') :
    Follows itself m (rounds (whileRound (test c steps types em.inline)
      (enclosed (execStmts c steps types out))) steps) (· = flow) m' := by
  refine (rounds_follow (Eval.whileLoop c · e stmts) rfl ?_ enough enough holds ended).1
  intro n m enough holds ended
  obtain ⟨v, m₁, evaluated, rest⟩ := bind_ok ended
  obtain ⟨b, m₁, decided, loop⟩ := bind_ok rest
  obtain ⟨rfl, rfl⟩ := boolean_of_truth decided
  obtain ⟨tested, holds₁⟩ := cond.condition checked inside enough holds evaluated clash
  cases b with
  | false =>
    cases loop
    exact .inl ⟨tested.eq_andThen (.ret rfl), holds₁⟩
  | true =>
    obtain ⟨flow₁, m₂, ran, next⟩ := bind_ok loop
    obtain ⟨followed, holds₂⟩ := block enough holds₁ ran
    have round : Follows itself m (whileRound (test c steps types em.inline)
        (enclosed (execStmts c steps types out))) (· = ending flow₁) m₂ :=
      tested.eq_andThen (followed.eq_andThen (.ret rfl))
    cases flow₁ with
    | normal | continued => exact .inr ⟨m₂, round, holds₂, next⟩
    | broke | returned =>
      cases next
      exact .inl ⟨round, holds₂⟩

theorem do_follows (ended : Eval.doWhile c n stmts e m = .ok flow m') :
    Follows itself m (rounds (doRound (enclosed (execStmts c steps types out))
      (test c steps types em.inline)) steps) (· = flow) m' := by
  refine (rounds_follow (Eval.doWhile c · stmts e) rfl ?_ enough enough holds ended).1
  intro n m enough holds ended
  obtain ⟨flow₁, m₁, ran, next⟩ := bind_ok ended
  obtain ⟨followed, holds₁⟩ := block enough holds ran
  cases flow₁ with
  | broke | returned =>
    cases next
    exact .inl ⟨followed.eq_andThen (.ret rfl), holds₁⟩
  | normal | continued =>
    -- The condition is tested unless the body ends the loop.
    obtain ⟨v, m₂, evaluated, rest⟩ := bind_ok next
    obtain ⟨b, m₂, decided, loop⟩ := bind_ok rest
    obtain ⟨rfl, rfl⟩ := boolean_of_truth decided
    obtain ⟨tested, holds₂⟩ := cond.condition checked inside enough holds₁ evaluated clash
    have round : Follows itself m (doRound (enclosed (execStmts c steps types out))
        (test c steps types em.inline)) (· = if b then none else some .normal) m₂ :=
      followed.eq_andThen (tested.eq_andThen (.ret rfl))
    cases b with
    | true => exact .inr ⟨m₂, round, holds₂, loop⟩
    | false =>
      cases loop
      exact .inl ⟨round, holds₂⟩

end

theorem for_follows (cond : RenderedOption c s o temps o' temps₁)
    (update : RenderedAll c s es temps₁ es' temps₂) (inside : temps₂ <+: types)
    (clash : SelfIndexed (Expr.optionNodes o) → itself)
    (clash' : SelfIndexed (GridKernel.Expr.listNodes es) → itself) (enough : n ≤ steps)
    (holds : Holds c s.names callers m) (ended : Eval.forLoop c n o es stmts m = .ok flow m') :
    Follows itself m (rounds (forRound (testOption c steps types o')
      (execInOrder c steps types es') (enclosed (execStmts c steps types out))) steps)
      (· = flow) m' ∧ Holds c s.names callers m' := by
  refine rounds_follow (Eval.forLoop c · o es stmts) rfl ?_ enough enough holds ended
  intro n m enough holds ended
  rw [forLoop_eq] at ended
  obtain ⟨b, m₁, decided, loop⟩ := bind_ok ended
  obtain ⟨tested, holds₁⟩ := cond.follows (update.grows.trans inside) enough holds decided clash
  cases b with
  | false =>
    cases loop
    exact .inl ⟨tested.eq_andThen (.ret rfl), holds₁⟩
  | true =>
    obtain ⟨flow₁, m₂, ran, next⟩ := bind_ok loop
    obtain ⟨followed, holds₂⟩ := block enough holds₁ ran
    cases flow₁ with
    | broke | returned =>
      cases next
      exact .inl ⟨tested.eq_andThen (followed.eq_andThen (.ret rfl)), holds₂⟩
    | normal | continued =>
      -- The updates follow unless the body ends the loop.
      obtain ⟨vs, m₃, updated, loop⟩ := bind_ok next
      obtain ⟨stepped, holds₃⟩ := update.follows inside enough holds₂ updated clash'
      exact .inr ⟨m₃, tested.eq_andThen (followed.eq_andThen (stepped.andThen fun _ _ => .ret rfl)),
        holds₃, loop⟩

end

end

variable {stmts : List GridKernel.Stmt}

section

variable (checked : check c.descriptor = .ok ())
  (typed : typeOf c.descriptor s e = .ok (some .boolean)) (inner : FaithfulBody c s.push stmts s')
  (stays : Stays c s s (fun n => Eval.block c n stmts) fun _ => True)
include checked typed inner stays

theorem faithful_while :
    FaithfulStmt c s (.whileLoop e stmts) s := by
  intro temps
  obtain ⟨em, temps₁, rendered⟩ := faithful checked e typed temps
  obtain ⟨out, temps₂, emits⟩ := inner temps₁
  refine ⟨[.whileLoop em.inline out], temps₂,
    (emit_bind rendered.translation).trans (emit_bind emits.translation),
    rendered.grows.trans emits.grows, ?_⟩
  intro types n steps callers m flow m' itself inside enough holds ended allowed
  have allowed' : Allows itself out (Stmt.allNodes stmts) :=
    allowed.sub (by simp [Stmt.anyDeclares, Stmt.declares]) fun _ => mem_append_right _
  cases n with
  | zero => cases ended
  | succ n =>
    have enough : n ≤ steps := Nat.le_of_lt enough
    rw [execStmts_single]
    refine while_follows (fun enough holds ran => ⟨?_, stays holds ran trivial⟩) checked rendered
      (emits.grows.trans inside)
      (fun nodes => allowed.clash (nodes.mono fun _ => mem_append_left _)) enough holds ended
    exact emits.block inside enough holds ran allowed'

theorem faithful_doWhile :
    FaithfulStmt c s (.doWhile stmts e) s := by
  intro temps
  obtain ⟨out, temps₁, emits⟩ := inner temps
  obtain ⟨em, temps₂, rendered⟩ := faithful checked e typed temps₁
  refine ⟨[.doWhile out em.inline], temps₂,
    (emit_bind emits.translation).trans (emit_bind rendered.translation),
    emits.grows.trans rendered.grows, ?_⟩
  intro types n steps callers m flow m' itself inside enough holds ended allowed
  have allowed' : Allows itself out (Stmt.allNodes stmts) :=
    allowed.sub (by simp [Stmt.anyDeclares, Stmt.declares]) fun _ => mem_append_right _
  cases n with
  | zero => cases ended
  | succ n =>
    have enough : n ≤ steps := Nat.le_of_lt enough
    rw [execStmts_single]
    refine do_follows (fun enough holds ran => ⟨?_, stays holds ran trivial⟩) checked rendered
      inside (fun nodes => allowed.clash (nodes.mono fun _ => mem_append_left _)) enough holds ended
    exact emits.block (rendered.grows.trans inside) enough holds ran allowed'

end

/-- The initializers of a `for`, run as statements. -/
theorem stmts_of_inits (initializers : ∀ st ∈ init, Typing.isInitializer st = true)
    (ended : Eval.inits c n init m = .ok () m') : Eval.stmts c n init m = .ok .normal m' := by
  induction n generalizing init m with
  | zero => cases ended
  | succ n ih =>
    cases init with
    | nil =>
      cases ended
      rfl
    | cons st rest =>
      obtain ⟨first, others⟩ := forall_mem_cons.mp initializers
      obtain ⟨flow, m₁, ran, later⟩ := bind_ok ended
      obtain rfl : flow = .normal := (Eval.initializer_ends first m).of_ok ran
      change EStateM.bind (Eval.stmt c n st) _ m = _
      unfold EStateM.bind
      rw [ran]
      exact ih others later

/-- A single initializer in the head of a `for` does what it does as a statement. -/
theorem execInit_of_head (shape : LoopInit.ofStmts first = .head start) :
    execStmts c steps types first = (do
      execInit c steps types start
      return .normal) := by
  match first with
  | [] =>
    cases shape
    rfl
  | [.declare type name init] | [.expr e] =>
    cases shape
    rw [execStmts_single]
    rfl

theorem declares_of_head (shape : LoopInit.ofStmts first = .head start)
    (p : String → Option Expr → Bool) : start.any (·.declares p) = Stmt.anyDeclares p first := by
  match first with
  | [] =>
    cases shape
    rfl
  | [.declare type name init] =>
    cases shape
    simp [ForInit.declares, Stmt.anyDeclares, Stmt.declares]
  | [.expr e] =>
    cases shape
    rfl

theorem eq_of_before {stmts : List Stmt} (shape : LoopInit.ofStmts first = .before stmts) :
    stmts = first := by
  unfold LoopInit.ofStmts at shape
  split at shape <;> cases shape
  rfl

theorem for_parts (ended : Eval.stmt c (n + 1) (.forLoop init o es stmts) m = .ok flow m') :
    ∃ m₁ m₂, Eval.inits c n init m = .ok () m₁ ∧
      Eval.forLoop c n o es stmts m₁ = .ok flow m₂ ∧
      m' = { m₂ with locals := m₂.locals.drop (m₂.locals.length - m.locals.length) } := by
  obtain ⟨m₂, ran, dropped⟩ := Eval.enclosed_ok ended
  obtain ⟨_, m₁, started, looped⟩ := bind_ok ran
  exact ⟨m₁, m₂, started, looped, dropped⟩

/-- What is dropped at the end of a block that declared nothing. -/
theorem drop_nothing {callers : Eval.Frame} (before : Holds c names callers m₁)
    (after : Holds c names callers m₂) :
    { m₂ with locals := m₂.locals.drop (m₂.locals.length - m₁.locals.length) } = m₂ := by
  rw [before.length_eq, after.length_eq, Nat.sub_self, drop_zero]

/-- The initializers and the rounds of a `for` do what they do in the kernel. -/
theorem for_runs {inner : Scope} {callers : Eval.Frame}
    (initializers : ∀ st ∈ init, Typing.isInitializer st = true)
    (started : Translated c s.push (body c.descriptor s.push init) (fun n => Eval.stmts c n init)
      (Stmt.allNodes init) inner temps first temps₁)
    (cond : RenderedOption c inner o temps₁ o' temps₂)
    (update : RenderedAll c inner es temps₂ es' temps₃)
    (emits : Translated c inner.push (body c.descriptor inner.push stmts)
      (fun n => Eval.stmts c n stmts) (Stmt.allNodes stmts) s' temps₃ out temps₄)
    (starting : Stays c s inner (fun n => Eval.inits c n init) fun _ => True)
    (stays : Stays c inner inner (fun n => Eval.block c n stmts) fun _ => True)
    (inside : temps₄ <+: types) (enough : n + 1 ≤ steps) (holds : Holds c s.names callers m)
    (ended : Eval.stmt c (n + 1) (.forLoop init o es stmts) m = .ok flow m')
    (allowed : Allows itself (first ++ out) (Stmt.nodes (.forLoop init o es stmts))) :
    ∃ m₁ m₂, Follows itself m (execStmts c steps types first) (· = .normal) m₁ ∧
      Follows itself m₁ (rounds (forRound (testOption c steps types o')
        (execInOrder c steps types es') (enclosed (execStmts c steps types out))) steps)
        (· = flow) m₂ ∧
      Holds c inner.names callers m₁ ∧ Holds c inner.names callers m₂ ∧
      m' = { m₂ with locals := m₂.locals.drop (m₂.locals.length - m.locals.length) } := by
  have enough : n ≤ steps := Nat.le_of_lt enough
  have inside₃ := emits.grows.trans inside
  obtain ⟨m₁, m₂, start, loop, dropped⟩ := for_parts ended
  have holds₁ := starting holds start trivial
  have allowed₁ : Allows itself first (Stmt.allNodes init) :=
    allowed.sub (by simp +contextual) fun _ found => by simp [Stmt.nodes, found]
  have allowed₂ : Allows itself out (Stmt.allNodes stmts) :=
    allowed.sub (by simp +contextual) fun _ found => by simp [Stmt.nodes, found]
  have begun := started.follows ((cond.grows.trans update.grows).trans inside₃) enough holds
    (stmts_of_inits initializers start) allowed₁
  obtain ⟨looped, holds₂⟩ := for_follows (s := inner)
    (fun enough holds ran =>
      ⟨emits.block inside enough holds ran allowed₂, stays holds ran trivial⟩)
    cond update inside₃
    (fun nodes => allowed.clash (nodes.mono fun _ found => by simp [Stmt.nodes, found]))
    (fun nodes => allowed.clash (nodes.mono fun _ found => by simp [Stmt.nodes, found]))
    enough holds₁ loop
  exact ⟨m₁, m₂, begun, looped, holds₁, holds₂, dropped⟩

/-- The initializers of a `for` stand in its head, or before it in a block. -/
theorem faithful_for {inner : Scope} (checked : check c.descriptor = .ok ())
    (initializers : ∀ st ∈ init, Typing.isInitializer st = true)
    (starts : FaithfulBody c s.push init inner)
    (starting : Stays c s inner (fun n => Eval.inits c n init) fun _ => True)
    (typed : ∀ e, o = some e → typeOf c.descriptor inner e = .ok (some .boolean))
    (updates : Typing.checkUpdates c.descriptor inner es = .ok ())
    (rounds : FaithfulBody c inner.push stmts s')
    (stays : Stays c inner inner (fun n => Eval.block c n stmts) fun _ => True) :
    FaithfulStmt c s (.forLoop init o es stmts) s := by
  intro temps
  obtain ⟨first, temps₁, started⟩ := starts temps
  obtain ⟨o', temps₂, cond⟩ := rendered_option checked typed temps₁
  obtain ⟨es', temps₃, update⟩ := rendered_all checked updates temps₂
  obtain ⟨out, temps₄, emits⟩ := rounds temps₃
  have grows :=
    started.grows.trans (cond.grows.trans (update.grows.trans emits.grows))
  cases shape : LoopInit.ofStmts first with
  | head start =>
    refine ⟨[.forLoop start o' es' out], temps₄, ?_, grows, ?_⟩
    · refine (emit_bind started.translation).trans ((emit_bind cond.translation).trans
        ((emit_bind update.translation).trans ((emit_bind emits.translation).trans ?_)))
      simp only [shape]
      rfl
    · intro types n steps callers m flow m' itself inside enough holds ended allowed
      cases n with
      | zero => cases ended
      | succ n =>
        have declared : ∀ p, Stmt.anyDeclares p [.forLoop start o' es' out] =
            Stmt.anyDeclares p (first ++ out) := by
          intro p
          simp [Stmt.anyDeclares, Stmt.declares, declares_of_head shape]
        obtain ⟨m₁, m₂, begun, looped, -, -, rfl⟩ := for_runs initializers started cond update
          emits starting stays inside enough holds ended
          (allowed.sub (fun none => declared _ ▸ none) fun _ => id)
        have run := begun.eq_andThen (k := fun _ => _) looped
        rw [execInit_of_head shape, bind_assoc] at run
        rw [execStmts_single]
        exact run.enclosed
  | before before =>
    obtain rfl := eq_of_before shape
    refine ⟨[.block (before ++ [.forLoop none o' es' out])], temps₄, ?_, grows, ?_⟩
    · refine (emit_bind started.translation).trans ((emit_bind cond.translation).trans
        ((emit_bind update.translation).trans ((emit_bind emits.translation).trans ?_)))
      simp only [shape]
      rfl
    · intro types n steps callers m flow m' itself inside enough holds ended allowed
      cases n with
      | zero => cases ended
      | succ n =>
        have declared : ∀ p, Stmt.anyDeclares p [.block (before ++ [.forLoop none o' es' out])] =
            Stmt.anyDeclares p (before ++ out) := by
          intro p
          simp [Stmt.anyDeclares, Stmt.declares]
        obtain ⟨m₁, m₂, begun, looped, holds₁, holds₂, rfl⟩ := for_runs initializers started cond
          update emits starting stays inside enough holds ended
          (allowed.sub (fun none => declared _ ▸ none) fun _ => id)
        have rest := looped.enclosed
        rw [drop_nothing holds₁ holds₂] at rest
        rw [execStmts_single]
        refine Follows.enclosed ?_
        rw [execStmts_append]
        refine begun.eq_andThen ?_
        rw [execStmts_single]
        exact rest

end

end GridKernel.Target
