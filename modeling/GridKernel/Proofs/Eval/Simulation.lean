import GridKernel.Proofs.Eval.Plain
import GridKernel.Proofs.Eval.Watched
import GridKernel.Proofs.Lang.Parts

/-!
# Relations along evaluations

What is proved of all evaluations has one shape: a relation between a watched computation and one in
another context is kept by the operations of the machine and when computations follow each other, and
therefore holds of evaluations. `Simulates` lists what such a relation has to keep. Operations that
change the machine have their place in the program text, so a relation may depend on which
expressions `may` be evaluated; an index says which of several relations is meant. Statements may
leave declared locals behind, which the end of their block drops, and have a relation of their own.
-/

namespace GridKernel

open List

/-- The place that an expression stores into. -/
def Expr.target? : Expr → Option (Place Expr)
  | .assign target _ _ | .step target _ _ => some target
  | _ => none

namespace Eval

/-- The location is one of the place. -/
def Location.IsAt : Location → Place Expr → Prop
  | .var name, .var name' | .field _ name, .field name' | .element name _, .element name' _ =>
    name = name'
  | _, _ => False

theorem resolve_isAt {c : Context} {n : Nat} {p : Place Expr} {l : Location} {m m' : Machine}
    (ended : resolve c n p m = .ok l m') : l.IsAt p := by
  have found : Ensures (resolve c n p) m (fun l _ => l.IsAt p) fun _ _ => True := by
    cases n with
    | zero => trivial
    | succ n =>
      cases p with
      | var name => exact Ensures.ret rfl
      | field name => exact (Ensures.anything _ m).andThen fun _ _ _ => Ensures.ret rfl
      | element array index =>
        refine (Ensures.anything _ m).andThen fun _ m₁ _ => ?_
        refine (Ensures.anything _ m₁).andThen fun _ m₂ _ => ?_
        exact (Ensures.anything _ m₂).andThen fun _ _ _ => Ensures.ret rfl
  exact found.of_ok ended

/-! ## Relations -/

/-- The operations that only look at the machine, in two contexts. -/
inductive Question (c c' : Context) : {α : Type} → Watched α → Comp α → Prop
  | ret {α : Type} (a : α) : Question c c' (pure a) (pure a)
  | stops {α : Type} (t : Trap) : Question c c' (.lift (trap t) : Watched α) (trap t)
  | lifts {α : Type} (r : Except Trap α) : Question c c' (.lift (orTrap r)) (orTrap r)
  | tests (v : Value) : Question c c' (.lift (truth v)) (truth v)
  | operands (op : AtomicOp) (v : Value) : Question c c' (.lift (operand op v)) (operand op v)
  | checks (array : String) (v : Value) (size : Nat) :
      Question c c' (.lift (checkIndex array v size)) (checkIndex array v size)
  | reads (l : Location) : Question c c' (Watched.readLocation c l) (readLocation c' l)
  | finds (name : String) :
      Question c c' (.lift (do return Location.field (← binding c name).1 name))
        (do return Location.field (← binding c' name).1 name)
  | measures (array : String) : Question c c' (.lift (arraySize c array)) (arraySize c' array)
  | lengths (array : String) : Question c c' (.lift (lengthOf c array)) (lengthOf c' array)
  | builtins (func : Builtin) (args : List Value) :
      Question c c' (.lift (builtinValue c func args)) (builtinValue c' func args)

/-- A relation that questions keep, and computations that follow each other. The second computation
has `k` steps more. -/
structure Sequenced (c c' : Context) (k : Nat) (W : {α : Type} → Watched α → Comp α → Prop) :
    Prop where
  ask : ∀ {α : Type} {w : Watched α} {x : Comp α}, Question c c' w x → W w x
  andThenOf : ∀ {α β : Type} {w : Watched α} {x : Comp α} {f : α → Watched β} {g : α → Comp β},
    W w x → (∀ a, (∃ m m', x m = .ok a m') → W (f a) (g a)) → W (w >>= f) (x >>= g)
  outOfSteps : ∀ {α : Type} {y : Comp α}, (k = 0 → y = exhausted) → W (.lift exhausted) y

namespace Sequenced

variable {c c' : Context} {k : Nat} {α β : Type} {W : {α : Type} → Watched α → Comp α → Prop}
  (h : Sequenced c c' k W)
include h

theorem andThen {w : Watched α} {x : Comp α} {f : α → Watched β} {g : α → Comp β} (first : W w x)
    (next : ∀ a, W (f a) (g a)) : W (w >>= f) (x >>= g) :=
  h.andThenOf first fun a _ => next a

theorem ret (a : α) : W (pure a) (pure a) := h.ask (.ret a)

theorem decides {w : Watched Value} {x : Comp Value} {f : Bool → Watched β} {g : Bool → Comp β}
    (first : W w x) (yes : W (f true) (g true)) (no : W (f false) (g false)) :
    W (w >>= fun v => Watched.lift (truth v) >>= f) (x >>= fun v => truth v >>= g) := by
  refine h.andThen first fun v => h.andThen (h.ask (.tests v)) fun b => ?_
  cases b with
  | true => exact yes
  | false => exact no

theorem round {w again : Watched Flow} {x again' : Comp Flow} (first : W w x)
    (next : W again again') : W (w >>= afterRound again) (x >>= afterRound again') := by
  refine h.andThen first fun flow => ?_
  cases flow with
  | normal | continued => exact next
  | broke | returned => exact h.ret _

end Sequenced

section

variable {ι : Type}

/-- A method may be invoked at `i`: its body, in a frame of its own, goes by another index. -/
def Enters (may : ι → Expr → Prop) (W : ι → {α : Type} → Watched α → Comp α → Prop) (i : ι)
    (m : Method) : Prop :=
  ∃ j, (∀ x ∈ Stmt.allNodes m.body, may j x) ∧ ∀ {w : Watched Flow} {x : Comp Flow}, W j w x →
    ∀ args, W i (w.framed (frameOf m args)) (framed (frameOf m args) x)

/-- What a relation between evaluations of expressions has to keep. -/
structure Operates (c c' : Context) (k : Nat) (may : ι → Expr → Prop)
    (W : ι → {α : Type} → Watched α → Comp α → Prop) : Prop where
  descriptor : c'.descriptor = c.descriptor
  exprs : ∀ i, Sequenced c c' k (W i)
  write : ∀ {i e p l} v, may i e → e.target? = some p → l.IsAt p →
    W i (Watched.writeLocation c v l) (writeLocation c' v l)
  perform : ∀ {i op slot args} index operands, may i (.atomic op slot args) →
    W i (Watched.performAtomic c op slot.field index operands)
      (performAtomic c' op slot.field index operands)

/-- What it has to keep together with a relation `S` between statements. -/
structure Simulates (c c' : Context) (k : Nat) (may : ι → Expr → Prop)
    (W S : ι → {α : Type} → Watched α → Comp α → Prop) : Prop extends Operates c c' k may W where
  stmts : ∀ i, Sequenced c c' k (S i)
  widen : ∀ {i} {α : Type} {w : Watched α} {x : Comp α}, W i w x → S i w x
  declare : ∀ i name v, S i (.lift (declareLocal name v)) (declareLocal name v)
  enclosed : ∀ {i} {w : Watched Flow} {x : Comp Flow}, S i w x → W i w.enclosed (enclosed x)
  callee : ∀ {i name es m}, may i (.call name es) → c.descriptor.method? name = some m →
    Enters may W i m

/-- The relation holds of expressions that are evaluated with `n` and with `n'` steps. -/
structure Evaluated (c c' : Context) (may : ι → Expr → Prop)
    (W : ι → {α : Type} → Watched α → Comp α → Prop) (n n' : Nat) : Prop where
  expr : ∀ {i e}, (∀ x ∈ e.nodes, may i x) → W i (Watched.eval c n e) (eval c' n' e)
  place : ∀ {i} {p : Place Expr}, (∀ x ∈ p.nodes, may i x) →
    W i (Watched.resolve c n p) (resolve c' n' p)
  optional : ∀ {i o}, (∀ x ∈ Expr.optionNodes o, may i x) →
    W i (Watched.evalOption c n o) (evalOption c' n' o)
  values : ∀ {i es}, (∀ x ∈ Expr.listNodes es, may i x) →
    W i (Watched.evalAll c n es) (evalAll c' n' es)
  operands : ∀ {i op es}, (∀ x ∈ Expr.listNodes es, may i x) →
    W i (Watched.evalOperands c n op es) (evalOperands c' n' op es)
  calls : ∀ {i name es}, may i (.call name es) → (∀ x ∈ Expr.listNodes es, may i x) →
    W i (Watched.call c n name es) (call c' n' name es)

/-- The relations hold of evaluations of `n` and of `n'` steps. -/
structure Simulated (c c' : Context) (may : ι → Expr → Prop)
    (W S : ι → {α : Type} → Watched α → Comp α → Prop) (n n' : Nat) : Prop
    extends Evaluated c c' may W n n' where
  invocation : ∀ {i m}, Enters may W i m → ∀ args,
    W i (Watched.invoke c n m args) (invoke c' n' m args)
  blocks : ∀ {i ss}, (∀ x ∈ Stmt.allNodes ss, may i x) →
    W i (Watched.block c n ss) (block c' n' ss)
  body : ∀ {i ss}, (∀ x ∈ Stmt.allNodes ss, may i x) →
    S i (Watched.stmts c n ss) (stmts c' n' ss)
  statement : ∀ {i} {s : Stmt}, (∀ x ∈ s.nodes, may i x) →
    S i (Watched.stmt c n s) (stmt c' n' s)
  whileRounds : ∀ {i e ss}, (∀ x ∈ e.nodes, may i x) → (∀ x ∈ Stmt.allNodes ss, may i x) →
    W i (Watched.whileLoop c n e ss) (whileLoop c' n' e ss)
  doRounds : ∀ {i e ss}, (∀ x ∈ e.nodes, may i x) → (∀ x ∈ Stmt.allNodes ss, may i x) →
    W i (Watched.doWhile c n ss e) (doWhile c' n' ss e)
  initializers : ∀ {i ss}, (∀ x ∈ Stmt.allNodes ss, may i x) →
    S i (Watched.inits c n ss) (inits c' n' ss)
  forRounds : ∀ {i o es ss}, (∀ x ∈ Expr.optionNodes o, may i x) →
    (∀ x ∈ Expr.listNodes es, may i x) → (∀ x ∈ Stmt.allNodes ss, may i x) →
    W i (Watched.forLoop c n o es ss) (forLoop c' n' o es ss)

/-! ## Evaluation -/

variable {c c' : Context} {k n n' : Nat} {may : ι → Expr → Prop} {i : ι}
  {W S : ι → {α : Type} → Watched α → Comp α → Prop}

namespace Evaluated

variable (g : Operates c c' k may W) (h : Evaluated c c' may W n n')
include g h

theorem expr_succ {e : Expr} (all : ∀ x ∈ e.nodes, may i x) :
    W i (Watched.eval c (n + 1) e) (eval c' (n' + 1) e) := by
  have q := g.exprs i
  cases e with
  | literal v => exact q.ret v
  | var name => exact q.ask (.reads (.var name))
  | field name => exact q.ask (.reads (.field 0 name))
  | length array => exact q.ask (.lengths array)
  | element array index =>
    exact q.andThen (h.expr (forall_mem_cons.mp all).2) fun v =>
      q.andThen (q.ask (.measures array)) fun size =>
        q.andThen (q.ask (.checks array v size)) fun j => q.ask (.reads (.element array j))
  | binary op lhs rhs =>
    obtain ⟨left, right⟩ := forall_mem_append.mp (forall_mem_cons.mp all).2
    cases op
    case and =>
      exact q.decides (h.expr left) (q.decides (h.expr right) (q.ret _) (q.ret _)) (q.ret _)
    case or =>
      exact q.decides (h.expr left) (q.ret _) (q.decides (h.expr right) (q.ret _) (q.ret _))
    all_goals exact q.andThen (h.expr left) fun _ => q.andThen (h.expr right) fun _ => q.ask (.lifts _)
  | unary op operand =>
    exact q.andThen (h.expr (forall_mem_cons.mp all).2) fun _ => q.ask (.lifts _)
  | conditional cond thenValue elseValue =>
    obtain ⟨front, second⟩ := forall_mem_append.mp (forall_mem_cons.mp all).2
    obtain ⟨condition, first⟩ := forall_mem_append.mp front
    exact q.decides (h.expr condition) (h.expr first) (h.expr second)
  | cast type value implicit => exact q.andThen (h.expr (forall_mem_cons.mp all).2) fun _ => q.ret _
  | assign target op value =>
    obtain ⟨own, inner⟩ := forall_mem_cons.mp all
    obtain ⟨place, source⟩ := forall_mem_append.mp inner
    cases op with
    | none =>
      refine q.andThenOf (h.place place) fun l ⟨_, _, found⟩ => ?_
      exact q.andThen (h.expr source) fun v =>
        q.andThen (g.write v own rfl (resolve_isAt found)) fun _ => q.ret v
    | some op =>
      refine q.andThenOf (h.place place) fun l ⟨_, _, found⟩ => ?_
      exact q.andThen (q.ask (.reads l)) fun old => q.andThen (h.expr source) fun v =>
        q.andThen (q.ask (.lifts _)) fun _ =>
          q.andThen (g.write _ own rfl (resolve_isAt found)) fun _ => q.ret _
  | step target op before =>
    obtain ⟨own, inner⟩ := forall_mem_cons.mp all
    refine q.andThenOf (h.place inner) fun l ⟨_, _, found⟩ => ?_
    exact q.andThen (q.ask (.reads l)) fun old =>
      q.andThen (g.write _ own rfl (resolve_isAt found)) fun _ => q.ret _
  | call name args =>
    obtain ⟨own, inner⟩ := forall_mem_cons.mp all
    refine q.andThen (h.calls own inner) fun result => ?_
    cases result with
    | some v => exact q.ret v
    | none => exact q.ask (.stops _)
  | atomic op slot args =>
    obtain ⟨field, index⟩ := slot
    obtain ⟨own, inner⟩ := forall_mem_cons.mp all
    obtain ⟨position, operands⟩ := forall_mem_append.mp inner
    exact q.andThen (h.optional position) fun index => q.andThen (h.operands operands) fun values =>
      g.perform index values own
  | builtin func args =>
    exact q.andThen (h.values (forall_mem_cons.mp all).2) fun values => q.ask (.builtins func values)

/-- With one step more on both sides, given what calls do. -/
theorem succ
    (calls : ∀ {i name es}, may i (.call name es) → (∀ x ∈ Expr.listNodes es, may i x) →
      W i (Watched.call c (n + 1) name es) (call c' (n' + 1) name es)) :
    Evaluated c c' may W (n + 1) (n' + 1) where
  expr := h.expr_succ g
  place {i p} all := by
    have q := g.exprs i
    cases p with
    | var name => exact q.ret _
    | field name => exact q.ask (.finds name)
    | element array index =>
      exact q.andThen (h.expr all) fun v => q.andThen (q.ask (.measures array)) fun size =>
        q.andThen (q.ask (.checks array v size)) fun _ => q.ret _
  optional {i o} all := by
    have q := g.exprs i
    cases o with
    | none => exact q.ret _
    | some e => exact q.andThen (h.expr all) fun _ => q.ret _
  values {i es} all := by
    have q := g.exprs i
    cases es with
    | nil => exact q.ret _
    | cons e rest =>
      obtain ⟨first, others⟩ := forall_mem_append.mp all
      exact q.andThen (h.expr first) fun _ => q.andThen (h.values others) fun _ => q.ret _
  operands {i op es} all := by
    have q := g.exprs i
    cases es with
    | nil => exact q.ret _
    | cons e rest =>
      obtain ⟨first, others⟩ := forall_mem_append.mp all
      exact q.andThen (h.expr first) fun v => q.andThen (q.ask (.operands op v)) fun _ =>
        q.andThen (h.operands others) fun _ => q.ret _
  calls := calls

end Evaluated

namespace Simulated

variable (g : Simulates c c' k may W S) (h : Simulated c c' may W S n n')
include g h

theorem for_succ {init body : List Stmt} {cond : Option Expr} {update : List Expr}
    (all : ∀ x ∈ (Stmt.forLoop init cond update body).nodes, may i x) :
    W i (Watched.stmt c (n + 1) (.forLoop init cond update body))
      (stmt c' (n' + 1) (.forLoop init cond update body)) := by
  obtain ⟨front, rounds⟩ := forall_mem_append.mp all
  obtain ⟨front, updates⟩ := forall_mem_append.mp front
  obtain ⟨starts, condition⟩ := forall_mem_append.mp front
  exact g.enclosed ((g.stmts i).andThen (h.initializers starts) fun _ =>
    g.widen (h.forRounds condition updates rounds))

theorem statement_succ {s : Stmt} (all : ∀ x ∈ s.nodes, may i x) :
    S i (Watched.stmt c (n + 1) s) (stmt c' (n' + 1) s) := by
  have q := g.stmts i
  cases s with
  | declare name type init =>
    cases init with
    | none => exact q.andThen (g.declare i name _) fun _ => q.ret _
    | some e =>
      exact q.andThen (g.widen (h.expr all)) fun _ => q.andThen (g.declare i name _) fun _ => q.ret _
  | expr e =>
    cases e with
    | call name args =>
      obtain ⟨own, inner⟩ := forall_mem_cons.mp all
      exact q.andThen (g.widen (h.calls own inner)) fun _ => q.ret _
    | _ => exact q.andThen (g.widen (h.expr all)) fun _ => q.ret _
  | branch cond thenBody elseBody =>
    obtain ⟨front, second⟩ := forall_mem_append.mp all
    obtain ⟨condition, first⟩ := forall_mem_append.mp front
    exact q.decides (g.widen (h.expr condition)) (g.widen (h.blocks first)) (g.widen (h.blocks second))
  | whileLoop cond body =>
    obtain ⟨condition, rounds⟩ := forall_mem_append.mp all
    exact g.widen (h.whileRounds condition rounds)
  | doWhile body cond =>
    obtain ⟨condition, rounds⟩ := forall_mem_append.mp all
    exact g.widen (h.doRounds condition rounds)
  | forLoop init cond update body => exact g.widen (h.for_succ g all)
  | breakLoop | continueLoop => exact q.ret _
  | ret value => exact q.andThen (g.widen (h.optional all)) fun _ => q.ret _
  | block body => exact g.widen (h.blocks all)

theorem calls_succ {name : String} {es : List Expr} (own : may i (.call name es))
    (all : ∀ x ∈ Expr.listNodes es, may i x) :
    W i (Watched.call c (n + 1) name es) (call c' (n' + 1) name es) := by
  have q := g.exprs i
  unfold call Watched.call
  rw [g.descriptor]
  cases found : c.descriptor.method? name with
  | none => exact q.ask (.stops _)
  | some m => exact q.andThen (h.values all) (h.invocation (g.callee own found))

theorem invocation_succ {m : Method} (enters : Enters may W i m) (args : List Value) :
    W i (Watched.invoke c (n + 1) m args) (invoke c' (n' + 1) m args) := by
  obtain ⟨j, all, inside⟩ := enters
  refine (g.exprs i).andThen (inside (h.blocks all) args) fun flow => ?_
  cases flow <;> exact (g.exprs i).ret _

theorem forRounds_succ {o : Option Expr} {es : List Expr} {ss : List Stmt}
    (condition : ∀ x ∈ Expr.optionNodes o, may i x) (updates : ∀ x ∈ Expr.listNodes es, may i x)
    (rounds : ∀ x ∈ Stmt.allNodes ss, may i x) :
    W i (Watched.forLoop c (n + 1) o es ss) (forLoop c' (n' + 1) o es ss) := by
  have q := g.exprs i
  have round := q.round (h.blocks rounds)
    (q.andThen (h.values updates) fun _ => h.forRounds condition updates rounds)
  cases o with
  | none =>
    refine q.andThen (q.ret true) fun b => ?_
    cases b with
    | false => exact q.ret _
    | true => exact round
  | some e => exact q.decides (h.expr condition) round (q.ret _)

theorem succ : Simulated c c' may W S (n + 1) (n' + 1) where
  toEvaluated := h.toEvaluated.succ g.toOperates (h.calls_succ g)
  invocation := h.invocation_succ g
  blocks all := g.enclosed (h.body all)
  body {i ss} all := by
    have q := g.stmts i
    cases ss with
    | nil => exact q.ret _
    | cons s rest =>
      obtain ⟨first, others⟩ := forall_mem_append.mp all
      refine q.andThen (h.statement first) fun flow => ?_
      cases flow with
      | normal => exact h.body others
      | broke | continued | returned => exact q.ret _
  statement := h.statement_succ g
  whileRounds {i _ _} condition rounds := by
    have q := g.exprs i
    exact q.decides (h.expr condition) (q.round (h.blocks rounds) (h.whileRounds condition rounds))
      (q.ret _)
  doRounds {i _ _} condition rounds := by
    have q := g.exprs i
    refine q.andThen (h.blocks rounds) fun flow => ?_
    cases flow with
    | normal | continued =>
      exact q.decides (h.expr condition) (h.doRounds condition rounds) (q.ret _)
    | broke | returned => exact q.ret _
  initializers {i ss} all := by
    have q := g.stmts i
    cases ss with
    | nil => exact q.ret _
    | cons s rest =>
      obtain ⟨first, others⟩ := forall_mem_append.mp all
      exact q.andThen (h.statement first) fun _ => h.initializers others
  forRounds := h.forRounds_succ g

end Simulated

/-- Expressions without calls. -/
theorem Operates.evaluated (g : Operates c c' 0 may W) (none : ∀ {i name es}, ¬may i (.call name es))
    (n : Nat) : Evaluated c c' may W n n := by
  induction n with
  | zero => constructor <;> intros <;> exact (g.exprs _).outOfSteps fun _ => rfl
  | succ n h => exact h.succ g fun called => absurd called none

namespace Simulates

theorem simulated (g : Simulates c c' k may W S) (n : Nat) :
    Simulated c c' may W S n (k + n) := by
  induction n with
  | zero =>
    refine ⟨⟨?_, ?_, ?_, ?_, ?_, ?_⟩, ?_, ?_, ?_, ?_, ?_, ?_, ?_, ?_⟩ <;> intros <;> first
      | refine (g.exprs _).outOfSteps ?_
      | refine (g.stmts _).outOfSteps ?_
    all_goals
      intro none
      subst none
      rfl
  | succ n h => exact h.succ g

theorem alike (g : Simulates c c' 0 may W S) (n : Nat) : Simulated c c' may W S n n := by
  have h := g.simulated n
  rwa [Nat.zero_add] at h

end Simulates

end

/-! ## Where evaluation leads -/

variable {α : Type} {c : Context} {D F : Machine → Machine → Prop}

/-- The machine after the computation is one that `D` relates to the machine before it, or `F` if it
stopped early. -/
def Goes (D F : Machine → Machine → Prop) (x : Comp α) : Prop :=
  ∀ m, Ensures x m (fun _ m' => D m m') fun _ m' => F m m'

/-- Relations that one computation after another keeps. -/
structure Path (D F : Machine → Machine → Prop) : Prop where
  refl : ∀ m, D m m
  trans : ∀ {m₁ m₂ m₃}, D m₁ m₂ → D m₂ m₃ → D m₁ m₃
  early : ∀ m, F m m
  after : ∀ {m₁ m₂ m₃}, D m₁ m₂ → F m₂ m₃ → F m₁ m₃

theorem Question.reads_only {w : Watched α} {x : Comp α} (q : Question c c w x) : Reads x := by
  cases q with
  | ret a => exact .ret a
  | stops t => exact .stops t
  | lifts r => exact .lifts r
  | tests v => exact .tests v
  | operands op v => exact .operands op v
  | checks array v size => exact .checks array v size
  | reads l => exact .reads_location c l
  | finds name => exact .andThen (.finds c name) fun _ => .ret _
  | measures array => exact .measures c array
  | lengths array => exact .reads_length c array
  | builtins func args => exact .builtins c func args

theorem Path.sequenced (p : Path D F) : Sequenced c c 0 fun _ x => Goes D F x where
  ask q m := (q.reads_only m).imp (fun _ _ same => same ▸ p.refl m) fun _ _ stop =>
    stop.2 ▸ p.early m
  andThenOf first next m := (first m).andThenOf fun a m' ended went =>
    (next a ⟨m, m', ended⟩ m').imp (fun _ _ => p.trans went) fun _ _ => p.after went
  outOfSteps spent := spent rfl ▸ p.early

/-- An expression without effects leaves the machine as it was, however its evaluation ends. -/
theorem plain_goes {n : Nat} {e : Expr} (plain : e.hasEffects = false) :
    Goes (fun m m' => m' = m) (fun m m' => m' = m) (eval c n e) := by
  have same : Path (fun m m' : Machine => m' = m) fun m m' => m' = m :=
    ⟨fun _ => rfl, fun first second => second.trans first, fun _ => rfl,
      fun first second => second.trans first⟩
  have operates : Operates c c 0 (fun (_ : Unit) e => e.hasEffects = false)
      fun _ {_} _ x => Goes (fun m m' => m' = m) (fun m m' => m' = m) x := {
    descriptor := rfl
    exprs := fun _ => same.sequenced
    write := fun {_ e _ _} _ plain stores _ => by cases e <;> cases stores <;> cases plain
    perform := fun _ _ plain => by cases plain }
  exact (operates.evaluated (fun called => by cases called) n).expr (i := ())
    (Expr.nodes_listed.forall_mem Expr.hasEffects_parts plain)

theorem plain_state (plain : e.hasEffects = false) (ended : eval c n e m = .ok v m') : m' = m :=
  (plain_goes plain m).of_ok ended

end Eval

end GridKernel
