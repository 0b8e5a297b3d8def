import GridKernel.Proofs.Lang.Traversals
import GridKernel.Proofs.Target.Bodies
import GridKernel.Proofs.Target.Declarations
import GridKernel.Proofs.Target.Fits

/-!
# Translated bodies fit their program

What the statements of a checked method are translated to declares the locals that the statements
declare, uses temporaries properly, and is well typed with the locals in sight that the checker
sees.
-/

namespace GridKernel.Target

open List Typing
open Typing (typeOf checkStmt checkBody)

section

variable {p : Program} {s s' : Scope}

/-! ## Statements -/

/-- What statements that declare `names` are translated to is formed, ends in the scope that the
checker ends in, and declares no name twice in a block. -/
def BodyFits (p : Program) (s s' : Scope) (names : List String) (x : Emit (List Stmt × Scope)) :
    Prop :=
  Emission (fun lo hi types r => FormedBody p types s.names s'.names names lo hi r.1 ∧ r.2 = s' ∧
    DeclaresOnce s s' r.1) x

theorem isValid_of_checkStmt
    (h : checkStmt d m inLoop position s (.declare name type init) = .ok s') :
    Name.isValid name = true := by
  replace h : Typing.checkDeclare d s name type init = .ok s' := locate_eq_ok.mp h
  cases init with
  | none => simpa using (Outcome.ite_error_eq_ok.mp h).1
  | some e =>
    obtain ⟨t, -, h⟩ := Outcome.bind_eq_ok.mp h
    by_cases same : t = type
    · rw [if_neg (not_not_intro same)] at h
      simpa using (Outcome.ite_error_eq_ok.mp h).1
    · rw [if_pos same] at h
      cases h

theorem declare_fits (name type) (fresh : s.declares name = false)
    (valid : Name.isValid name = true) :
    BodyFits p s (s.declare name type) [name] (stmt d s (.declare name type none)) := by
  refine .ret fun n types => ⟨?_, rfl, .declare type none fresh valid⟩
  rw [Scope.names_declare fresh]
  have safe : (Stmt.declare type name none).Safe [] := by
    rintro path w ⟨rfl, -⟩
    trivial
  have formed : FormedBody p types s.names ((Stmt.declare type name none).bind s.names) [name] n n
      [.declare type name none] := .single (.nil n) safe rfl (forall_mem_singleton.mpr valid)
  exact formed

theorem initialize_fits (h : Fits p d s init) (typed : typeOf d s init = .ok (some type))
    (lengths : LengthsIn d init.nodes) (name) (fresh : s.declares name = false)
    (valid : Name.isValid name = true) :
    BodyFits p s (s.declare name type) [name] (stmt d s (.declare name type (some init))) := by
  refine (h typed lengths).andThen fun em => .ret fun n types lo formed => ⟨?_, rfl,
    .lifted em (.declare type _ fresh valid)⟩
  rw [Scope.names_declare fresh]
  have safe := formed.tidy.after em.value mem_cons_self
  refine .lifted formed.tidy.first ?_ (Stmt.declare_safe type name safe) rfl
    (forall_mem_singleton.mpr valid)
  simpa [Stmt.sites, declareSites] using formed.placed

theorem effect_fits (h : Fits p d s e) (typed : typeOf d s e = .ok result)
    (lengths : LengthsIn d e.nodes) : BodyFits p s s [] (stmt d s (.expr e)) := by
  refine (h typed lengths).andThen fun em => .ret fun n types lo formed => ⟨?_, rfl, .lifted em (.leaf rfl rfl)⟩
  have safe : (Stmt.expr em.value).Safe (em.pre.flatMap Expr.stores) :=
    fun path w taken => formed.tidy.after em.value mem_cons_self path taken.1
  refine .lifted formed.tidy.first ?_ safe rfl (forall_mem_nil _)
  simpa [Stmt.sites] using formed.placed

theorem return_fits (h : Fits p d s value) (typed : typeOf d s value = .ok result)
    (lengths : LengthsIn d value.nodes) : BodyFits p s s [] (stmt d s (.ret (some value))) := by
  refine (h typed lengths).andThen fun em => .ret fun n types lo formed => ⟨?_, rfl, .lifted em (.leaf rfl rfl)⟩
  have safe := formed.tidy.after em.value mem_cons_self
  refine .lifted formed.tidy.first ?_ (Stmt.ret_safe safe) rfl (forall_mem_nil _)
  simpa [Stmt.sites] using formed.placed

/-- A statement that evaluates nothing. -/
theorem jump_fits (none : st.sites false s.names = [])
    (still : ∀ path w, st.Path path w → path = []) (quiet : st.declared = [])
    (same : st.bind s.names = s.names) (once : DeclaresOnce s s [st]) :
    BodyFits p s s [] (pure ([st], s)) := by
  refine .ret fun n types => ⟨?_, rfl, once⟩
  have formed : FormedBody p types s.names (st.bind s.names) [] n n [st] :=
    .single (none ▸ .nil n) (fun path w taken => still path w taken ▸ trivial) quiet
      (forall_mem_nil _)
  rwa [same] at formed

variable {cond : GridKernel.Expr}

theorem branch_fits (h : Fits p d s cond) (typed : typeOf d s cond = .ok (some .boolean))
    (lengths : LengthsIn d cond.nodes) (yes : BodyFits p s.push s₁ names (body d s.push thenBody))
    (no : BodyFits p s.push s₂ names' (body d s.push elseBody)) :
    BodyFits p s s (names ++ names') (stmt d s (.branch cond thenBody elseBody)) := by
  refine (h typed lengths).andThen fun c => yes.andThen fun t => no.andThen fun e => .ret ?_
  rintro n types hi ⟨second, -, once'⟩ mid ⟨first, -, once⟩ lo formed
  refine ⟨?_, rfl, .lifted c (.single rfl (forall_mem_append.mpr ⟨once.block, once'.block⟩))⟩
  have safe := formed.tidy.after c.value mem_cons_self
  refine .lifted formed.tidy.first ?_ (Stmt.branch_safe safe
    (first.safe.mono (nil_subset _)) (second.safe.mono (nil_subset _))) ?_
    (forall_mem_append.mpr ⟨first.valid, second.valid⟩)
  · have whole := formed.placed.append (first.placed.append second.placed)
    simpa [Stmt.sites] using whole
  · rw [Stmt.declared, first.declared, second.declared]

theorem while_fits (h : Fits p d s cond) (typed : typeOf d s cond = .ok (some .boolean))
    (lengths : LengthsIn d cond.nodes) (rounds : BodyFits p s.push s₁ names (body d s.push block)) :
    BodyFits p s s names (stmt d s (.whileLoop cond block)) := by
  refine (h typed lengths).andThen fun c => rounds.andThen fun b => .ret ?_
  rintro n types mid ⟨inner, -, once⟩ lo formed
  have test := formed.inline
  have safe := test.tidy.after c.inline mem_cons_self
  exact ⟨.single (test.placed.append inner.placed) (Stmt.while_safe safe inner.safe) inner.declared
    inner.valid, rfl, .single rfl once.block⟩

theorem doWhile_fits (h : Fits p d s cond) (typed : typeOf d s cond = .ok (some .boolean))
    (lengths : LengthsIn d cond.nodes) (rounds : BodyFits p s.push s₁ names (body d s.push block)) :
    BodyFits p s s names (stmt d s (.doWhile block cond)) := by
  refine rounds.andThen fun b => (h typed lengths).andThen fun c => .ret ?_
  rintro n types mid formed lo ⟨inner, -, once⟩
  have test := formed.inline
  have safe := test.tidy.after c.inline mem_cons_self
  exact ⟨.single (inner.placed.append test.placed) (Stmt.doWhile_safe safe inner.safe)
    inner.declared inner.valid, rfl, .single rfl once.block⟩

theorem block_fits (inner : BodyFits p s.push s₁ names (body d s.push block)) :
    BodyFits p s s names (stmt d s (.block block)) := by
  refine inner.andThen fun b => .ret ?_
  rintro n types lo ⟨formed, -, once⟩
  exact ⟨formed.block, rfl, .single rfl once.block⟩

/-! ### Loops with a head -/

/-- Expressions of the head of a loop, each of which runs everything in order. -/
def HeadFits (p : Program) (s : Scope) {α : Type} (exprs : α → List Expr) (x : Emit α) : Prop :=
  Emission (fun lo hi types r => ∃ ks, Formed p s.names types lo hi [] (exprs r) ks) x

theorem inlineOption_fits {cond : Option GridKernel.Expr} (h : ∀ e, Fits p d s e)
    (typed : ∀ e, cond = some e → typeOf d s e = .ok (some .boolean))
    (lengths : LengthsIn d (Expr.optionNodes cond)) :
    HeadFits p s Option.toList (inlineOption d s cond) := by
  cases cond with
  | none => exact .ret fun n types => ⟨[], .nil n⟩
  | some e =>
    refine (h e (typed e rfl) lengths).andThen fun em => .ret fun n types lo formed => ?_
    exact ⟨_, formed.inline⟩

theorem inlineAll_fits (h : ∀ e, Fits p d s e) {update : List GridKernel.Expr}
    (typed : Typing.checkUpdates d s update = .ok ())
    (lengths : LengthsIn d (GridKernel.Expr.listNodes update)) :
    HeadFits p s id (inlineAll d s update) := by
  induction update with
  | nil => exact .ret fun n types => ⟨[], .nil n⟩
  | cons e rest ih =>
    obtain ⟨⟨result, first⟩, others⟩ := checkUpdates_cons typed
    refine (h e first lengths.left).andThen fun em => (ih others lengths.right).andThen fun r => .ret ?_
    rintro n types mid ⟨ks, later⟩ lo formed
    exact ⟨_, formed.inline.append later⟩

theorem LoopInit.ofStmts_head (h : LoopInit.ofStmts stmts = .head init) :
    stmts = init.toList.map ForInit.stmt := by
  unfold LoopInit.ofStmts at h
  split at h <;> cases h <;> rfl

theorem ForInit.sites_eq (env) (init : Option ForInit) :
    Stmt.allSites false env (init.toList.map ForInit.stmt) =
      init.toList.flatMap (ForInit.sites false env) := by
  cases init with
  | none => rfl
  | some i => cases i <;> simp [Stmt.allSites, Stmt.sites, ForInit.stmt, ForInit.sites]

theorem ForInit.declared_eq (init : Option ForInit) :
    Stmt.allDeclared (init.toList.map ForInit.stmt) = init.toList.flatMap ForInit.declared := by
  cases init with
  | none => rfl
  | some i => cases i <;> simp [Stmt.allDeclared, Stmt.declared, ForInit.stmt, ForInit.declared]

/-- A loop after its initializer. -/
theorem FormedBody.loop {types : Temps} {env env' env'' : ScopeFrame} {lo mid mid' hi : Nat}
    {init : Option ForInit} {cond : Option Expr} {update : List Expr} {block : List Stmt}
    {ks : List Kind}
    (start : FormedBody p types env env' names lo mid (init.toList.map ForInit.stmt))
    (head : Formed p env' types mid mid' [] (cond.toList ++ update) ks)
    (inner : FormedBody p types env' env'' names' mid' hi block) :
    FormedBody p types env env (names ++ names') lo hi [.forLoop init cond update block] := by
  refine .single ?_ (Stmt.for_safe start.safe head.tidy.after inner.safe) ?_
    (forall_mem_append.mpr ⟨start.valid, inner.valid⟩)
  · have whole := start.placed.append (head.placed.append inner.placed)
    rw [Stmt.sites, ← ForInit.sites_eq, start.after]
    exact whole
  · rw [Stmt.declared, ← ForInit.declared_eq, start.declared, inner.declared]

theorem FormedBody.loopAlone {types : Temps} {env env' : ScopeFrame} {lo mid hi : Nat}
    {cond : Option Expr} {update : List Expr} {block : List Stmt} {ks : List Kind}
    (head : Formed p env types lo mid [] (cond.toList ++ update) ks)
    (inner : FormedBody p types env env' names mid hi block) :
    FormedBody p types env env names lo hi [.forLoop none cond update block] := by
  have start : FormedBody p types env env [] lo lo
      ((none : Option ForInit).toList.map ForInit.stmt) := .nil lo
  exact start.loop head inner

theorem for_fits {inner : Scope} {cond : Option GridKernel.Expr} {update : List GridKernel.Expr}
    (h : ∀ e, Fits p d inner e) (start : BodyFits p s.push inner names (body d s.push init))
    (condition : ∀ e, cond = some e → typeOf d inner e = .ok (some .boolean))
    (updates : Typing.checkUpdates d inner update = .ok ())
    (rounds : BodyFits p inner.push s₁ names' (body d inner.push block))
    (lengths : LengthsIn d (Expr.optionNodes cond))
    (lengths₁ : LengthsIn d (GridKernel.Expr.listNodes update)) :
    BodyFits p s s (names ++ names') (stmt d s (.forLoop init cond update block)) := by
  refine start.andThenWith ?_
  rintro ⟨first, _⟩ _ _ _ ⟨-, rfl, -⟩
  refine (inlineOption_fits h condition lengths).andThen fun c => ?_
  refine (inlineAll_fits h updates lengths₁).andThen fun u => rounds.andThen fun b => ?_
  cases shape : LoopInit.ofStmts first with
  | head init =>
    refine .ret ?_
    rintro n types hi ⟨inner, -, once'⟩ mid' ⟨_, steps⟩ mid ⟨_, test⟩ lo ⟨start, -, once⟩
    rw [LoopInit.ofStmts_head shape] at start once
    exact ⟨start.loop (test.append steps) inner, rfl, .loop c u once once'⟩
  | before out =>
    refine .ret ?_
    rintro n types hi ⟨inner, -, once'⟩ mid' ⟨_, steps⟩ mid ⟨_, test⟩ lo ⟨start, -, once⟩
    rw [eq_of_before shape]
    have alone {t : Scope} : DeclaresOnce t t [.forLoop none c u b.1] :=
      .loop c u (.nil (s := t)) once'
    exact ⟨(start.append (.loopAlone (test.append steps) inner)).block, rfl,
      .single rfl (once.append alone).block⟩

variable (checked : Typing.check d = .ok ()) (face : Interface p d)
include checked face

set_option linter.unusedSectionVars false in
mutual

/-- By induction on statements; what each form adds to its parts is in the lemma of the form. -/
theorem stmt_fits {inLoop : Bool} {position : Nat} {s s' : Scope} :
    ∀ st : GridKernel.Stmt, checkStmt d m inLoop position s st = .ok s' → LengthsIn d st.nodes →
      BodyFits p s s' st.locals (stmt d s st)
  | .declare name type none, h, _ => by
    obtain ⟨-, fresh, rfl⟩ := checkStmt_declare h
    exact declare_fits name type fresh (isValid_of_checkStmt h)
  | .declare name type (some init), h, lengths => by
    obtain ⟨typed, fresh, rfl⟩ := checkStmt_declare h
    exact initialize_fits (expr_fits checked face init) (typed init rfl) lengths name fresh
      (isValid_of_checkStmt h)
  | .expr e, h, lengths => by
    obtain ⟨⟨result, typed⟩, rfl⟩ := checkStmt_expr h
    exact effect_fits (expr_fits checked face e) typed lengths
  | .branch cond thenBody elseBody, h, lengths => by
    obtain ⟨typed, ⟨_, _, first⟩, ⟨_, _, second⟩, rfl⟩ := checkStmt_branch h
    rw [Stmt.locals_branch]
    exact branch_fits (expr_fits checked face cond) typed lengths.left.left
      (body_fits thenBody first lengths.left.right)
      (body_fits elseBody second lengths.right)
  | .whileLoop cond block, h, lengths => by
    obtain ⟨typed, ⟨_, _, rounds⟩, rfl⟩ := checkStmt_whileLoop h
    exact while_fits (expr_fits checked face cond) typed lengths.left
      (body_fits block rounds lengths.right)
  | .doWhile block cond, h, lengths => by
    obtain ⟨typed, ⟨_, _, rounds⟩, rfl⟩ := checkStmt_doWhile h
    exact doWhile_fits (expr_fits checked face cond) typed lengths.left
      (body_fits block rounds lengths.right)
  | .forLoop init cond update block, h, lengths => by
    obtain ⟨inner, ⟨_, starts⟩, typed, updates, ⟨_, _, rounds⟩, rfl⟩ := checkStmt_forLoop h
    obtain ⟨started, -⟩ := checkBody_of_checkInits starts
    rw [Stmt.locals_forLoop]
    exact for_fits (expr_fits checked face)
      (body_fits init started lengths.left.left.left) typed updates
      (body_fits block rounds lengths.right) lengths.left.left.right lengths.left.right
  | .breakLoop, h, _ => by
    obtain ⟨-, rfl⟩ := checkStmt_break h
    exact jump_fits rfl (fun _ _ taken => taken.1) rfl rfl (.leaf rfl rfl)
  | .continueLoop, h, _ => by
    obtain ⟨-, rfl⟩ := checkStmt_continue h
    exact jump_fits rfl (fun _ _ taken => taken.1) rfl rfl (.leaf rfl rfl)
  | .ret none, h, _ => by
    obtain ⟨-, rfl⟩ := checkStmt_ret h
    exact jump_fits rfl (fun _ _ taken => taken.1) rfl rfl (.leaf rfl rfl)
  | .ret (some value), h, lengths => by
    obtain ⟨⟨t, typed, -⟩, rfl⟩ := checkStmt_ret h
    exact return_fits (expr_fits checked face value) typed lengths
  | .block block, h, lengths => by
    obtain ⟨⟨_, _, inner⟩, rfl⟩ := checkStmt_block h
    exact block_fits (body_fits block inner lengths)

theorem body_fits {inLoop : Bool} {position : Nat} {s s' : Scope} :
    ∀ stmts : List GridKernel.Stmt, checkBody d m inLoop position s stmts = .ok s' →
      LengthsIn d (Stmt.allNodes stmts) →
        BodyFits p s s' (Stmt.allLocals stmts) (body d s stmts)
  | [], h, _ => by
    cases h
    exact .ret fun n types => ⟨.nil n, rfl, .nil⟩
  | st :: rest, h, lengths => by
    obtain ⟨_, s₁, first, others⟩ := checkBody_cons h
    rw [Stmt.allLocals_cons]
    refine (stmt_fits st first lengths.left).andThenWith ?_
    rintro ⟨out, _⟩ _ _ _ ⟨-, rfl, -⟩
    refine (body_fits rest others lengths.right).andThen fun r => .ret ?_
    rintro n types mid ⟨later, rfl, once'⟩ lo ⟨formed, -, once⟩
    exact ⟨formed.append later, rfl, once.append once'⟩

end

end

end GridKernel.Target
