import GridKernel.Proofs.Target.Resolution

/-!
# Locals that are read hold values

In a method a local that is declared without an initializer is zero; in the translation it holds no
value. Apart from that and from initializers that mention the local that they initialize, no local
of the translation is read that holds no value, and the values read are those of the method.
-/

namespace GridKernel

open List

/-! ## Mentioned locals -/

mutual

/-- Whether a local of this name occurs in the expression. -/
def Expr.mentions (name : String) : Expr → Bool
  | .var other => other == name
  | .literal _ | .field _ | .length _ => false
  | .element _ e | .unary _ e | .cast _ e _ => e.mentions name
  | .binary _ l r => l.mentions name || r.mentions name
  | .conditional cond thenValue elseValue =>
    cond.mentions name || thenValue.mentions name || elseValue.mentions name
  | .assign target _ value => target.mentions name || value.mentions name
  | .step target _ _ => target.mentions name
  | .call _ args | .builtin _ args => Expr.anyMentions name args
  | .atomic _ slot args => slot.mentions name || Expr.anyMentions name args

def Place.mentions (name : String) : Place Expr → Bool
  | .var other => other == name
  | .field _ => false
  | .element _ index => index.mentions name

def SlotRef.mentions (name : String) : SlotRef Expr → Bool
  | ⟨_, index⟩ => Expr.optionMentions name index

def Expr.optionMentions (name : String) : Option Expr → Bool
  | none => false
  | some e => e.mentions name

def Expr.anyMentions (name : String) : List Expr → Bool
  | [] => false
  | e :: rest => e.mentions name || Expr.anyMentions name rest

end

section

variable {ρ ρ' : String → String} {name : String}

theorem Expr.anyMentions_eq (name es) : Expr.anyMentions name es = es.any (Expr.mentions name) := by
  induction es with
  | nil => rfl
  | cons e rest ih => rw [Expr.anyMentions, ih, any_cons]

theorem Expr.rename_congr (others : ∀ x, x ≠ name → ρ x = ρ' x) (e : Expr)
    (absent : e.mentions name = false) : e.rename ρ = e.rename ρ' := by
  induction e using Expr.parts_induct with
  | step e inner =>
    cases e with
    | assign target | step target =>
      cases target <;>
        simp_all [Expr.mentions, Place.mentions, Expr.rename, Place.rename, Expr.parts, Place.parts]
    | atomic op slot args =>
      obtain ⟨field, index⟩ := slot
      cases index <;>
        simp_all [Expr.mentions, SlotRef.mentions, Expr.optionMentions, Expr.rename, SlotRef.rename,
          Expr.renameOption, Expr.parts, Expr.anyMentions_eq, Expr.renameAll_eq_map]
    | _ =>
      simp_all [Expr.mentions, Expr.rename, Expr.parts, Expr.anyMentions_eq, Expr.renameAll_eq_map]

end

/-! ## Declarations -/

/-- Whether an initializer mentions the local that it initializes. -/
def initializesItself (name : String) (init : Option Expr) : Bool := init.any (·.mentions name)

def lacksInitializer (_ : String) (init : Option Expr) : Bool := init.isNone

/-- Whether the statement itself is a declaration with this property. -/
def Stmt.isDeclaration (q : String → Option Expr → Bool) : Stmt → Bool
  | .declare name _ init => q name init
  | _ => false

/-- Whether some declaration in the statements has this property. -/
def Stmt.anyDeclares (q : String → Option Expr → Bool) (stmts : List Stmt) : Bool :=
  (Stmt.flattenAll stmts).any (Stmt.isDeclaration q)

namespace Target

open Eval (Context Machine Matches)

/-- Everything that the translation may give is good. -/
def Emits {α : Type} (good : α → Prop) (x : Emit α) : Prop :=
  ∀ temps a temps', x temps = .ok (a, temps') → good a

namespace Emits

variable {α β : Type}

theorem ret (h : good a) : Emits good (pure a) := by
  intro temps a' temps' ended
  cases ended
  exact h

theorem andThen (h : Emits good x) (next : ∀ a, good a → Emits good' (k a)) :
    Emits good' (x >>= k) := by
  intro temps b temps' ended
  obtain ⟨⟨a, temps₁⟩, first, later⟩ := Outcome.bind_eq_ok.mp ended
  exact next a (h _ _ _ first) _ _ _ later

theorem anything (x : Emit α) : Emits (fun _ => True) x := fun _ _ _ _ => trivial

end Emits

section

variable {d : Descriptor} {s : Scope}

/-- Locals under their names and, in a second block, under other ones. -/
def twofold (ρ ρ' : String → String) (s : Scope) : Scope :=
  ⟨[s.names.map (Prod.map ρ id), s.names.map (Prod.map ρ' id)]⟩

theorem lookup_renamed {ρ : String → String} (apart : Function.Injective ρ) (frame : ScopeFrame)
    (name) : (frame.map (Prod.map ρ id)).lookup (ρ name) = frame.lookup name := by
  induction frame with
  | nil => rfl
  | cons entry rest ih =>
    obtain ⟨other, type⟩ := entry
    simp only [map_cons, Prod.map_apply, id, lookup_cons, ih]
    by_cases same : name = other
    · simp [same]
    · simp [beq_false_of_ne same, beq_false_of_ne (apart.ne same)]

theorem lookup_unused {ρ : String → String} {other : String} (frame : ScopeFrame)
    (unused : ∀ name, ρ name ≠ other) : (frame.map (Prod.map ρ id)).lookup other = none := by
  rw [lookup_eq_none_iff]
  intro entry member
  obtain ⟨source, -, rfl⟩ := mem_map.mp member
  simpa using (unused source.1).symm

/-- The translation of an expression mentions no local that the expression does not mention: under
two renamings that differ in that local only, it is the same. -/
theorem expr_mentions (name : String) (e : GridKernel.Expr) :
    Emits (fun em => em.value.mentions name = true → e.mentions name = true) (expr d s e) := by
  intro temps em temps' emits mentioned
  by_contra absent
  rw [Bool.not_eq_true] at absent
  let sight := Sight.empty
  let ρ := sight.named plainLabel
  let ρ' := (sight.bind name).named plainLabel
  have apart : Function.Injective ρ := sight.named_injective plainLabel_injective
  have apart' : Function.Injective ρ' := (sight.bind name).named_injective plainLabel_injective
  have others : ∀ x, x ≠ name → ρ x = ρ' x :=
    fun x differs => congrArg plainLabel (sight.refersTo_bind_of_ne differs).symm
  have unused : ∀ x, ρ x ≠ ρ' name := by
    intro x same
    have same := plainLabel_injective same
    rw [sight.refersTo_bind_self] at same
    exact sight.refersTo_ne_next x same
  have renamed : Typing.Renamed ρ s (twofold ρ ρ' s) := by
    intro x t found
    rw [Scope.lookup?_eq] at found
    simp only [twofold, Scope.lookup?, findSome?_cons, lookup_renamed apart, found]
  have renamed' : Typing.Renamed ρ' s (twofold ρ ρ' s) := by
    intro x t found
    by_cases same : x = name
    · subst same
      rw [Scope.lookup?_eq] at found
      simp only [twofold, Scope.lookup?, findSome?_cons, lookup_unused _ unused,
        lookup_renamed apart', found]
    · rw [← others x same]
      exact renamed x t found
  have first := expr_carries apart renamed e _ _ _ emits
  have second := expr_carries apart' renamed' e _ _ _ emits
  rw [Expr.rename_congr others e absent, second] at first
  have same := congrArg (fun r => r.1.value) (Except.ok.inj first)
  have differ : ρ' name ≠ ρ name := (unused name).symm
  have gone := (Expr.rename_eq_iff (fun x differs => (others x differs).symm) differ em.value).mp same
  rw [gone] at mentioned
  cases mentioned

/-- In a translation, declarations with the property `p` come from declarations with the property
`q`. -/
structure Reflects (p : String → Option Expr → Bool) (q : String → Option GridKernel.Expr → Bool) :
    Prop where
  bare : ∀ name, p name none = true → q name none = true
  given : ∀ {d s} (name : String) (e : GridKernel.Expr),
    Emits (fun em => p name (some em.value) = true → q name (some e) = true) (expr d s e)

theorem reflects_itself : Reflects initializesItself GridKernel.initializesItself where
  bare _ := nofun
  given := expr_mentions

theorem reflects_lacks : Reflects lacksInitializer GridKernel.lacksInitializer where
  bare _ _ := rfl
  given _ _ _ _ _ _ := nofun

variable {p : String → Option Expr → Bool}

def LoopInit.declares (p : String → Option Expr → Bool) : LoopInit → Bool
  | .head init => init.any (·.declares p)
  | .before stmts => Stmt.anyDeclares p stmts

theorem LoopInit.declares_ofStmts (p : String → Option Expr → Bool) (stmts) :
    (LoopInit.ofStmts stmts).declares p = Stmt.anyDeclares p stmts := by
  match stmts with
  | [] => rfl
  | [st] => cases st <;> simp [LoopInit.ofStmts, LoopInit.declares, ForInit.declares,
      Stmt.anyDeclares, Stmt.declares]
  | first :: second :: rest => cases first <;> rfl

mutual

theorem stmt_reflects (h : Reflects p q) :
    ∀ (st : GridKernel.Stmt) (s : Scope), Emits (fun r => Stmt.anyDeclares p r.1 = true →
      st.flatten.any (Stmt.isDeclaration q) = true) (stmt d s st)
  | .declare name type none, s => .ret fun found => by
    simp only [Stmt.anyDeclares, Stmt.declares, Bool.or_false] at found
    simpa [Stmt.flatten, Stmt.isDeclaration] using h.bare name found
  | .declare name type (some init), s => (h.given name init).andThen fun em given => .ret fun found => by
    simp only [Stmt.anyDeclares_append, Emitted.anyDeclares_lifted, Stmt.anyDeclares, Stmt.declares,
      Bool.or_false, Bool.false_or] at found
    simpa [Stmt.flatten, Stmt.isDeclaration] using given found
  | .expr e, s => (Emits.anything _).andThen fun em _ => .ret fun found => by
    simp [Stmt.anyDeclares, Stmt.declares] at found
  | .branch cond thenBody elseBody, s => by
    refine (Emits.anything _).andThen fun c _ => ?_
    refine (body_reflects h thenBody s.push).andThen fun t first => ?_
    refine (body_reflects h elseBody s.push).andThen fun e second => .ret fun found => ?_
    simp only [Stmt.anyDeclares_append, Emitted.anyDeclares_lifted, Stmt.anyDeclares, Stmt.declares,
      Bool.or_false, Bool.false_or, Bool.or_eq_true] at found
    simp only [Stmt.flatten, any_cons, any_append, Bool.or_eq_true]
    exact .inr (found.imp first second)
  | .whileLoop cond block, s => by
    refine (Emits.anything _).andThen fun c _ => ?_
    refine (body_reflects h block s.push).andThen fun b inner => .ret fun found => ?_
    simp only [Stmt.anyDeclares, Stmt.declares, Bool.or_false] at found
    simp only [Stmt.flatten, any_cons, Bool.or_eq_true]
    exact .inr (inner found)
  | .doWhile block cond, s => by
    refine (body_reflects h block s.push).andThen fun b inner => ?_
    refine (Emits.anything _).andThen fun c _ => .ret fun found => ?_
    simp only [Stmt.anyDeclares, Stmt.declares, Bool.or_false] at found
    simp only [Stmt.flatten, any_cons, Bool.or_eq_true]
    exact .inr (inner found)
  | .forLoop init cond update block, s => by
    refine (body_reflects h init s.push).andThen fun i first => ?_
    refine (Emits.anything _).andThen fun c _ => ?_
    refine (Emits.anything _).andThen fun u _ => ?_
    refine (body_reflects h block i.2.push).andThen fun b inner => ?_
    rw [← LoopInit.declares_ofStmts] at first
    simp only [Stmt.flatten, any_cons, any_append, Bool.or_eq_true]
    cases shape : LoopInit.ofStmts i.1 with
    | head start =>
      rw [shape] at first
      refine .ret fun found => ?_
      simp only [Stmt.anyDeclares, Stmt.declares, Bool.or_false, Bool.or_eq_true] at found
      exact .inr (found.imp first inner)
    | before stmts =>
      rw [shape] at first
      refine .ret fun found => ?_
      simp only [Stmt.anyDeclares, Stmt.declares, Stmt.anyDeclares_append, Option.any_none,
        Bool.or_false, Bool.false_or, Bool.or_eq_true] at found
      exact .inr (found.imp first inner)
  | .breakLoop, s | .continueLoop, s | .ret none, s => .ret nofun
  | .ret (some value), s => (Emits.anything _).andThen fun em _ => .ret fun found => by
    simp [Stmt.anyDeclares, Stmt.declares] at found
  | .block block, s => by
    refine (body_reflects h block s.push).andThen fun b inner => .ret fun found => ?_
    simp only [Stmt.anyDeclares, Stmt.declares, Bool.or_false] at found
    simp only [Stmt.flatten, any_cons, Bool.or_eq_true]
    exact .inr (inner found)

theorem body_reflects (h : Reflects p q) :
    ∀ (stmts : List GridKernel.Stmt) (s : Scope), Emits (fun r => Stmt.anyDeclares p r.1 = true →
      GridKernel.Stmt.anyDeclares q stmts = true) (body d s stmts)
  | [], s => .ret nofun
  | st :: rest, s => by
    refine (stmt_reflects h st s).andThen fun r first => ?_
    refine (body_reflects h rest r.2).andThen fun r' others => .ret fun found => ?_
    rw [Stmt.anyDeclares_append, Bool.or_eq_true] at found
    simp only [GridKernel.Stmt.anyDeclares, GridKernel.Stmt.flattenAll, any_append,
      Bool.or_eq_true]
    exact found.imp first others

end

theorem methodBody_reflects (h : Reflects p q) (emits : methodBody d m = .ok b)
    (found : Stmt.anyDeclares p b.stmts = true) : GridKernel.Stmt.anyDeclares q m.body = true := by
  obtain ⟨⟨⟨out, s₁⟩, temps⟩, emitted, finished⟩ := Outcome.bind_eq_ok.mp emits
  cases finished
  exact body_reflects h m.body _ _ _ _ emitted found

end

/-! ## Runs -/

theorem Body.run_determinate {c : Eval.Context} {steps : Nat} {b : Body} {m : Method}
    {args : List Value} (apart : Stmt.anyDeclares initializesItself b.stmts = false)
    (given : Stmt.anyDeclares lacksInitializer b.stmts = false) :
    Determinate (b.run c steps m args) := by
  refine (Tame.onMachine _).determinate.andThen fun _ => ?_
  refine (Tame.onMachine _).determinate.andThen fun _ => ?_
  refine (execStmts_determinate b.stmts apart given).enclosed.andThen fun flow => ?_
  refine (Tame.onMachine _).determinate.andThen fun _ => ?_
  cases flow <;> exact (Tame.ret _).determinate

/-- Every method of a checked kernel is translated. If an initializer in the translation mentions
the local that it initializes, one in the method does. Otherwise a run of the translation reads a
local that holds no value only if the method declares one without an initializer; and where the
method completes, the run reads such a local, or has a conflict over an element whose index assigns
to the same array, or returns what the method returns and leaves the same machine. -/
theorem translation_reads_set_locals {d : Descriptor} (checked : Typing.check d = .ok ())
    {m : Method} (member : m ∈ d.methods) :
    ∃ b, methodBody d m = .ok b ∧
      (Stmt.anyDeclares initializesItself b.stmts = true →
        GridKernel.Stmt.anyDeclares GridKernel.initializesItself m.body = true) ∧
      (Stmt.anyDeclares initializesItself b.stmts = false →
        ∀ (bound : List Bound) (item : WorkItem) (steps : Nat) (args : List Value) (start : State),
          start.unset = [] →
          let c : Context := ⟨d, bound, item⟩
          (∀ after, b.run c steps m args start = .error .indeterminate after →
            GridKernel.Stmt.anyDeclares GridKernel.lacksInitializer m.body = true) ∧
          ∀ (n : Nat) (scope : Scope) (v : Option Value) (m' : Machine), n ≤ steps →
            args.map Value.type = m.params.map Param.type → Matches c scope start.machine →
            Eval.invoke c n m args start.machine = .ok v m' →
            (∃ after, b.run c steps m args start = .ok v after ∧ after.machine = m') ∨
            (∃ after, b.run c steps m args start = .error .indeterminate after) ∨
            SelfIndexed (Stmt.allNodes m.body) ∧
              ∃ after, b.run c steps m args start = .error .conflict after) := by
  -- The work-item does not matter to the translation.
  let item : WorkItem := ⟨⟨0, 0, 0⟩, ⟨1, 1, 1⟩, ⟨1, 1, 1⟩, 0⟩
  obtain ⟨b, emits, -⟩ := faithful_method (c := ⟨d, [], item⟩) checked member
  refine ⟨b, emits, methodBody_reflects reflects_itself emits, ?_⟩
  intro apart bound item steps args start set c
  refine ⟨?_, ?_⟩
  · intro after read
    cases given : Stmt.anyDeclares lacksInitializer b.stmts with
    | true => exact methodBody_reflects reflects_lacks emits given
    | false => exact absurd rfl ((Body.run_determinate apart given start set).of_error read)
  · rintro n scope v m' enough typed ⟨callers, holds⟩ completed
    obtain ⟨b', translated', follows⟩ := faithful_method (c := c) checked member
    cases Except.ok.inj (emits.symm.trans translated')
    have ends := follows enough typed holds completed ⟨apart, id⟩ start rfl
    cases ran : b.run c steps m args start with
    | ok w after =>
      obtain ⟨rfl, machine⟩ := ends.of_ok ran
      exact .inl ⟨after, rfl, machine⟩
    | error fault after =>
      rcases ends.of_error ran with ⟨rfl, itself⟩ | rfl
      · exact .inr (.inr ⟨itself, after, rfl⟩)
      · exact .inr (.inl ⟨after, rfl⟩)

/-- A local that is declared anew in each round: `int i = 0; while (i < 2) { int x = i; a[x] = x;
i++; }`. -/
def roundsMain : Method where
  name := "run"
  body :=
    [.declare "i" .int (some (.int 0)),
      .whileLoop (.binary .lt (.var "i") (.int 2))
        [.declare "x" .int (some (.var "i")),
          .expr (.assign (.element "a" (.var "x")) none (.var "x")),
          .expr (.step (.var "i") .inc false)]]

theorem rounds_read_set_locals :
    Typing.check (arrayDescriptor roundsMain) = .ok () ∧
      ∃ b after, methodBody (arrayDescriptor roundsMain) roundsMain = .ok b ∧
        b.run (arrayContext roundsMain) 20 roundsMain [] { machine := arrayMachine 7 7 [] } =
          .ok none after ∧ after.machine = arrayMachine 0 1 [] := by
  have checked : Typing.check (arrayDescriptor roundsMain) = .ok () := by decide
  refine ⟨checked, ?_⟩
  obtain ⟨b, emits, -, runs⟩ := translation_reads_set_locals checked mem_cons_self
  have apart : Stmt.anyDeclares initializesItself b.stmts = false := by
    cases emits
    rfl
  obtain ⟨unset, ends⟩ := runs apart [.array 0] (arrayContext roundsMain).item 20 []
    { machine := arrayMachine 7 7 [] } rfl
  have completed : Eval.invoke (arrayContext roundsMain) 20 roundsMain [] (arrayMachine 7 7 []) =
    .ok none (arrayMachine 0 1 []) := rfl
  rcases ends 20 ⟨[[]]⟩ none _ (Nat.le_refl 20) rfl (arrayMachine_matches roundsMain 7 7 [])
    completed with ⟨after, ran, machine⟩ | ⟨after, read⟩ | ⟨⟨node, member, itself⟩, -⟩
  · exact ⟨b, after, emits, ran, machine⟩
  · cases unset after read
  · exfalso
    revert node
    decide

/-- `int x; a[0] = x;`: a local that is read as it was declared. -/
def unsetMain : Method where
  name := "run"
  body :=
    [.declare "x" .int none, .expr (.assign (.element "a" (.int 0)) none (.var "x"))]

/-- The method stores zero; its translation reads a local that holds no value. -/
theorem unset_local_read :
    (arraySchema unsetMain).build = .ok (arrayDescriptor unsetMain) ∧
      Typing.check (arrayDescriptor unsetMain) = .ok () ∧
      Matches (arrayContext unsetMain) ⟨[[]]⟩ (arrayMachine 7 7 []) ∧
      Eval.invoke (arrayContext unsetMain) 9 unsetMain [] (arrayMachine 7 7 []) =
        .ok none (arrayMachine 0 7 []) ∧
      ∃ b after, methodBody (arrayDescriptor unsetMain) unsetMain = .ok b ∧
        b.run (arrayContext unsetMain) 9 unsetMain [] { machine := arrayMachine 7 7 [] } =
          .error .indeterminate after :=
  ⟨rfl, rfl, arrayMachine_matches unsetMain 7 7 [], rfl, _, _, rfl, rfl⟩

end Target

end GridKernel
