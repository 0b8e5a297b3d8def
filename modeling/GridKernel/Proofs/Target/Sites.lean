import GridKernel.Proofs.Target.Emission

/-!
# Expressions in statements

`Stmt.sites` lists the expressions in a statement, each with the locals that are in sight there. In C
a local is in sight in its own initializer, in a kernel it is not; `early` says which rule is
followed. Where no initializer mentions its own local, both give the same types.

`FormedBody` says of statements what `Formed` says of expressions.
-/

namespace GridKernel.Target

open List Stmt

/-! ## Sites -/

/-- The locals in sight at an expression, and the expression. -/
abbrev Site := ScopeFrame × Expr

def ForInit.stmt : ForInit → Stmt
  | .declare type name init => .declare type name init
  | .expr e => .expr e

/-- The locals in sight after a statement. -/
def Stmt.bind (env : ScopeFrame) : Stmt → ScopeFrame
  | .declare type name _ => (name, type) :: env
  | _ => env

def Stmt.bindAll (env : ScopeFrame) (stmts : List Stmt) : ScopeFrame := stmts.foldl Stmt.bind env

/-- A declaration's initializer. -/
def declareSites (early : Bool) (env : ScopeFrame) (type : ScalarType) (name : String)
    (init : Option Expr) : List Site :=
  init.toList.map fun e => (if early then (name, type) :: env else env, e)

def ForInit.sites (early : Bool) (env : ScopeFrame) : ForInit → List Site
  | .declare type name init => declareSites early env type name init
  | .expr e => [(env, e)]

mutual

def Stmt.sites (early : Bool) (env : ScopeFrame) : Stmt → List Site
  | .declare type name init => declareSites early env type name init
  | .expr e => [(env, e)]
  | .branch cond thenBody elseBody =>
    (env, cond) :: (Stmt.allSites early env thenBody ++ Stmt.allSites early env elseBody)
  | .whileLoop cond body => (env, cond) :: Stmt.allSites early env body
  | .doWhile body cond => Stmt.allSites early env body ++ [(env, cond)]
  | .forLoop init cond update body =>
    init.toList.flatMap (ForInit.sites early env) ++
      ((cond.toList ++ update).map (Prod.mk (Stmt.bindAll env (init.toList.map ForInit.stmt))) ++
        Stmt.allSites early (Stmt.bindAll env (init.toList.map ForInit.stmt)) body)
  | .ret value => value.toList.map (Prod.mk env)
  | .block body => Stmt.allSites early env body
  | .breakLoop | .continueLoop => []

def Stmt.allSites (early : Bool) (env : ScopeFrame) : List Stmt → List Site
  | [] => []
  | s :: rest => s.sites early env ++ Stmt.allSites early (s.bind env) rest

end

def ForInit.declared : ForInit → List String
  | .declare _ name _ => [name]
  | .expr _ => []

mutual

/-- The names of the locals that a statement declares, those in its blocks included. -/
def Stmt.declared : Stmt → List String
  | .declare _ name _ => [name]
  | .branch _ thenBody elseBody => Stmt.allDeclared thenBody ++ Stmt.allDeclared elseBody
  | .whileLoop _ body | .doWhile body _ | .block body => Stmt.allDeclared body
  | .forLoop init _ _ body =>
    init.toList.flatMap ForInit.declared ++ Stmt.allDeclared body
  | .expr _ | .breakLoop | .continueLoop | .ret _ => []

def Stmt.allDeclared : List Stmt → List String
  | [] => []
  | s :: rest => s.declared ++ Stmt.allDeclared rest

end

section

variable {env : ScopeFrame}

theorem Stmt.allSites_append (first rest) :
    Stmt.allSites early env (first ++ rest) =
      Stmt.allSites early env first ++ Stmt.allSites early (Stmt.bindAll env first) rest := by
  induction first generalizing env with
  | nil => rfl
  | cons s others ih => simp [Stmt.allSites, Stmt.bindAll, ih]

theorem Stmt.allDeclared_append (first rest) :
    Stmt.allDeclared (first ++ rest) = Stmt.allDeclared first ++ Stmt.allDeclared rest := by
  induction first with
  | nil => rfl
  | cons s others ih => simp [Stmt.allDeclared, ih]

theorem Stmt.bindAll_append (first rest) :
    Stmt.bindAll env (first ++ rest) = Stmt.bindAll (Stmt.bindAll env first) rest :=
  foldl_append

theorem Stmt.bindAll_exprs (pre : List Expr) : Stmt.bindAll env (pre.map .expr) = env := by
  induction pre with
  | nil => rfl
  | cons e rest ih => exact ih

theorem Stmt.allSites_exprs (pre : List Expr) :
    Stmt.allSites early env (pre.map .expr) = pre.map (Prod.mk env) := by
  induction pre with
  | nil => rfl
  | cons e rest ih => simp [Stmt.allSites, Stmt.sites, Stmt.bind, ih]

theorem Stmt.allDeclared_exprs (pre : List Expr) : Stmt.allDeclared (pre.map .expr) = [] := by
  induction pre with
  | nil => rfl
  | cons e rest ih => simpa [Stmt.allDeclared, Stmt.declared] using ih

end

/-! ## Initializers that do not mention their locals -/

section

variable {p : Program} {types : Temps}

/-- The sites have types. -/
def AllTyped (p : Program) (types : Temps) (sites : List Site) : Prop :=
  ∀ site ∈ sites, site.2.HasKind p types site.1

theorem AllTyped.append_iff : AllTyped p types (a ++ b) ↔ AllTyped p types a ∧ AllTyped p types b :=
  forall_mem_append

theorem declare_typed (apart : initializesItself name init = false)
    (typed : AllTyped p types (declareSites false env type name init)) :
    AllTyped p types (declareSites true env type name init) := by
  cases init with
  | none => exact forall_mem_nil _
  | some e =>
    obtain ⟨k, kind⟩ := forall_mem_singleton.mp typed
    have apart : e.mentions name = false := apart
    refine forall_mem_singleton.mpr ⟨k, ?_⟩
    exact (Expr.kind?_unmentioned type apart).trans kind

theorem init_typed {env : ScopeFrame} {init : Option ForInit}
    (apart : init.any (·.declares initializesItself) = false)
    (typed : AllTyped p types (init.toList.flatMap (ForInit.sites false env))) :
    AllTyped p types (init.toList.flatMap (ForInit.sites true env)) := by
  cases init with
  | none => exact typed
  | some i =>
    cases i with
    | expr e => exact typed
    | declare type name init =>
      simp only [Option.toList_some, flatMap_singleton] at typed ⊢
      exact declare_typed apart typed

mutual

/-- By induction on statements: only sites of initializers differ. -/
theorem Stmt.sites_typed : ∀ (s : Stmt) (env : ScopeFrame),
    s.declares initializesItself = false → AllTyped p types (s.sites false env) →
      AllTyped p types (s.sites true env)
  | .declare _ _ _, _, apart, typed => declare_typed apart typed
  | .expr _, _, _, typed | .ret _, _, _, typed | .breakLoop, _, _, typed
  | .continueLoop, _, _, typed => typed
  | .branch cond thenBody elseBody, env, apart, typed => by
    obtain ⟨first, second⟩ := Bool.or_eq_false_iff.mp apart
    obtain ⟨test, both⟩ := forall_mem_cons.mp typed
    obtain ⟨yes, no⟩ := AllTyped.append_iff.mp both
    exact forall_mem_cons.mpr ⟨test, AllTyped.append_iff.mpr
      ⟨allSites_typed thenBody env first yes, allSites_typed elseBody env second no⟩⟩
  | .whileLoop cond body, env, apart, typed => by
    obtain ⟨test, inner⟩ := forall_mem_cons.mp typed
    exact forall_mem_cons.mpr ⟨test, allSites_typed body env apart inner⟩
  | .doWhile body cond, env, apart, typed => by
    obtain ⟨inner, test⟩ := AllTyped.append_iff.mp typed
    exact AllTyped.append_iff.mpr ⟨allSites_typed body env apart inner, test⟩
  | .forLoop init cond update body, env, apart, typed => by
    obtain ⟨first, second⟩ := Bool.or_eq_false_iff.mp apart
    obtain ⟨start, rest⟩ := AllTyped.append_iff.mp typed
    obtain ⟨head, inner⟩ := AllTyped.append_iff.mp rest
    exact AllTyped.append_iff.mpr ⟨init_typed first start, AllTyped.append_iff.mpr
      ⟨head, allSites_typed body _ second inner⟩⟩
  | .block body, env, apart, typed => allSites_typed body env apart typed

theorem Stmt.allSites_typed : ∀ (stmts : List Stmt) (env : ScopeFrame),
    Stmt.anyDeclares initializesItself stmts = false →
      AllTyped p types (Stmt.allSites false env stmts) →
      AllTyped p types (Stmt.allSites true env stmts)
  | [], _, _, typed => typed
  | s :: rest, env, apart, typed => by
    obtain ⟨first, others⟩ := Bool.or_eq_false_iff.mp apart
    obtain ⟨here, after⟩ := AllTyped.append_iff.mp typed
    exact AllTyped.append_iff.mpr
      ⟨sites_typed s env first here, allSites_typed rest _ others after⟩

end

end

/-! ## Written before read -/

/-- Where these temporaries are written, every path through the statement writes others before it
reads them. -/
def Stmt.Safe (W : List Nat) (s : Stmt) : Prop := ∀ path w, s.Path path w → Covered W path

/-- The temporary that the statement is an assignment to. -/
def Stmt.stores : Stmt → List Nat
  | .expr e => e.stores
  | _ => []

theorem Stmt.Safe.mono {W W' : List Nat} {s : Stmt} (h : s.Safe W) (more : W ⊆ W') : s.Safe W' :=
  fun path w taken => (h path w taken).mono more

/-- Statements that run one after the other. -/
def SafeBody (W : List Nat) (stmts : List Stmt) : Prop := Chained Stmt.Safe Stmt.stores W stmts

namespace SafeBody

variable {stmts : List Stmt}

theorem mono (h : SafeBody W stmts) (more : W ⊆ W') : SafeBody W' stmts :=
  Chained.mono Stmt.Safe.mono h more

theorem append (first : SafeBody W stmts)
    (second : SafeBody (stmts.flatMap Stmt.stores ++ W) stmts') : SafeBody W (stmts ++ stmts') :=
  Chained.append Stmt.Safe.mono first second

theorem single (h : s.Safe W) : SafeBody W [s] := ⟨h, trivial⟩

theorem covered (h : SafeBody W stmts) (taken : Stmt.BodyPath stmts path w) : Covered W path := by
  induction stmts generalizing W path with
  | nil =>
    obtain ⟨rfl, -⟩ := taken
    trivial
  | cons s rest ih =>
    rcases taken with ⟨rfl, -⟩ | ⟨only, -⟩ | ⟨a, b, first, others, rfl⟩
    · trivial
    · exact h.1 path w only
    · have wrote : s.stores ⊆ written a := by
        cases s with
        | expr e =>
          have evaluated : e.Path a := first.1
          exact evaluated.stores_written
        | _ => exact nil_subset _
      have later : SafeBody (s.stores ++ W) rest := h.2
      have next : SafeBody (written a ++ W) rest := later.mono (append_subset.mpr
        ⟨subset_append_of_subset_left _ wrote, subset_append_right _ _⟩)
      exact (h.1 a .normal first).append (ih next others)

/-- Expressions as statements. -/
theorem exprs (h : SafeSequence W pre) : SafeBody W (pre.map .expr) := by
  induction pre generalizing W with
  | nil => trivial
  | cons e rest ih => exact ⟨fun path w taken => h.1 path taken.1, ih h.2⟩

end SafeBody

theorem stores_exprs (pre : List Expr) :
    (pre.map Stmt.expr).flatMap Stmt.stores = pre.flatMap Expr.stores := by
  induction pre with
  | nil => rfl
  | cons e rest ih => simp [Stmt.stores, ih]

namespace Stmt

variable {body : List Stmt}

theorem sequence_safe (h : ∀ e ∈ es, e.Safe W) (taken : Expr.SequencePath es path) :
    Covered W path := by
  induction es generalizing path with
  | nil =>
    subst taken
    trivial
  | cons e rest ih =>
    obtain ⟨a, b, first, others, rfl⟩ := taken
    obtain ⟨own, each⟩ := forall_mem_cons.mp h
    exact (own a first).followed (ih each others)

/-- If every round is covered, so is the loop. -/
theorem rounds_covered {round : List TempAccess → Option Way → Prop}
    (h : ∀ path next, round path next → Covered W path) (taken : Rounds round path w) :
    Covered W path := by
  induction taken with
  | cut => trivial
  | last only => exact h _ _ only
  | again first _ ih => exact (h _ _ first).followed ih

theorem declare_safe (type name) (h : e.Safe W) : (Stmt.declare type name (some e)).Safe W := by
  intro path w taken
  exact sequence_safe (forall_mem_singleton.mpr h) taken.1

theorem ret_safe (h : e.Safe W) : (Stmt.ret (some e)).Safe W := by
  intro path w taken
  exact sequence_safe (forall_mem_singleton.mpr h) taken.1

theorem branch_safe (h : e.Safe W) (yes : SafeBody W thenBody) (no : SafeBody W elseBody) :
    (Stmt.branch e thenBody elseBody).Safe W := by
  rintro path w ⟨a, b, test, either, rfl⟩
  refine (h a test).followed ?_
  rcases either with first | second
  · exact yes.covered first
  · exact no.covered second

theorem while_safe (h : e.Safe W) (inner : SafeBody W body) : (Stmt.whileLoop e body).Safe W := by
  intro path w taken
  refine rounds_covered ?_ taken
  rintro path next ⟨a, test, ⟨rfl, -⟩ | ⟨b, w', ran, rfl, -⟩⟩
  · exact h _ test
  · exact (h a test).followed (inner.covered ran)

theorem doWhile_safe (h : e.Safe W) (inner : SafeBody W body) : (Stmt.doWhile body e).Safe W := by
  intro path w taken
  refine rounds_covered ?_ taken
  rintro path next ⟨a, w', ran, ⟨-, rfl, -⟩ | ⟨-, b, test, rfl, -⟩⟩
  · exact inner.covered ran
  · exact (inner.covered ran).followed (h b test)

theorem for_safe {cond : Option Expr} {update : List Expr}
    (start : SafeBody W (init.toList.map ForInit.stmt)) (h : ∀ e ∈ cond.toList ++ update, e.Safe W)
    (inner : SafeBody W body) : (Stmt.forLoop init cond update body).Safe W := by
  obtain ⟨test, step⟩ := forall_mem_append.mp h
  rintro path w ⟨a, b, started, none, rfl, taken⟩
  have first : Covered W a := by
    cases init with
    | none =>
      rw [none rfl]
      trivial
    | some i =>
      have own := started i rfl
      cases i with
      | declare type name init | expr e => exact start.1 a .normal ⟨own, rfl⟩
  refine first.followed (rounds_covered ?_ taken)
  rintro path next ⟨a, tested, ⟨rfl, -⟩ | ⟨b, w', ran, rest⟩⟩
  · exact sequence_safe test tested
  · have both := (sequence_safe test tested).followed (inner.covered ran)
    rcases rest with ⟨-, rfl, -⟩ | ⟨-, c, stepped, rfl, -⟩
    · exact both
    · exact both.followed (sequence_safe step stepped)

theorem block_safe (inner : SafeBody W body) : (Stmt.block body).Safe W :=
  fun _ _ taken => inner.covered taken

end Stmt

/-! ## Statements that belong together -/

/-- The expressions store into the temporaries from `lo` up to `hi`, into each once, and have
types. -/
structure Placed (p : Program) (types : Temps) (lo hi : Nat) (sites : List Site) : Prop where
  le : lo ≤ hi
  assigned : (sites.flatMap (·.2.assigned)).Perm (List.range' lo (hi - lo))
  typed : AllTyped p types sites

section

variable {p : Program} {types : Temps} {env env' : ScopeFrame} {lo hi : Nat}

theorem Placed.nil (n) : Placed p types n n [] where
  le := Nat.le_refl n
  assigned := by simp
  typed := forall_mem_nil _

theorem Placed.append (h : Placed p types lo mid a) (h' : Placed p types mid hi b) :
    Placed p types lo hi (a ++ b) where
  le := h.le.trans h'.le
  assigned := by
    rw [flatMap_append, ← range'_join h.le h'.le]
    exact h.assigned.append h'.assigned
  typed := AllTyped.append_iff.mpr ⟨h.typed, h'.typed⟩

theorem Formed.placed (h : Formed p env types lo hi pre values ks) :
    Placed p types lo hi ((pre ++ values).map (Prod.mk env)) where
  le := h.tidy.le
  assigned := by
    rw [flatMap_map, flatMap_append]
    exact h.tidy.assigned
  typed := by
    intro site member
    obtain ⟨e, inside, rfl⟩ := mem_map.mp member
    rcases mem_append.mp inside with early | late
    · exact h.first e early
    · exact Expr.each_of_kinds? h.kinds e late

/-- What is asked of statements between two sets of locals; `names` are the locals that they
declare. -/
structure FormedBody (p : Program) (types : Temps) (env env' : ScopeFrame) (names : List String)
    (lo hi : Nat) (stmts : List Stmt) : Prop where
  placed : Placed p types lo hi (Stmt.allSites false env stmts)
  safe : SafeBody [] stmts
  after : Stmt.bindAll env stmts = env'
  declared : Stmt.allDeclared stmts = names
  valid : ∀ name ∈ names, Name.isValid name = true

namespace FormedBody

theorem nil (n) : FormedBody p types env env [] n n [] where
  placed := .nil n
  safe := trivial
  after := rfl
  declared := rfl
  valid := forall_mem_nil _

theorem append (h : FormedBody p types env env' names lo mid stmts)
    (h' : FormedBody p types env' env'' names' mid hi stmts') :
    FormedBody p types env env'' (names ++ names') lo hi (stmts ++ stmts') where
  placed := by
    rw [allSites_append, h.after]
    exact h.placed.append h'.placed
  safe := h.safe.append (h'.safe.mono (nil_subset _))
  after := by rw [bindAll_append, h.after, h'.after]
  declared := by rw [allDeclared_append, h.declared, h'.declared]
  valid := forall_mem_append.mpr ⟨h.valid, h'.valid⟩

theorem single (placed : Placed p types lo hi (st.sites false env)) (safe : st.Safe [])
    (declared : st.declared = names) (valid : ∀ name ∈ names, Name.isValid name = true) :
    FormedBody p types env (st.bind env) names lo hi [st] where
  placed := by simpa [Stmt.allSites] using placed
  safe := .single safe
  after := rfl
  declared := by simpa [Stmt.allDeclared] using declared
  valid := valid

/-- A statement after the expressions that run first. -/
theorem lifted {em : Emitted} (h : SafeSequence [] em.pre)
    (placed : Placed p types lo hi (em.pre.map (Prod.mk env) ++ st.sites false env))
    (safe : st.Safe (em.pre.flatMap Expr.stores)) (declared : st.declared = names)
    (valid : ∀ name ∈ names, Name.isValid name = true) :
    FormedBody p types env (st.bind env) names lo hi (em.lifted ++ [st]) where
  placed := by
    rw [Emitted.lifted, allSites_append, allSites_exprs, bindAll_exprs]
    simpa [Stmt.allSites] using placed
  safe := by
    refine (SafeBody.exprs h).append (.single ?_)
    rw [stores_exprs, append_nil]
    exact safe
  after := by
    rw [bindAll_append, Emitted.lifted, bindAll_exprs]
    rfl
  declared := by
    rw [allDeclared_append, Emitted.lifted, allDeclared_exprs]
    simpa [Stmt.allDeclared] using declared
  valid := valid

/-- A block declares nothing outside it. -/
theorem block (h : FormedBody p types env env' names lo hi stmts) :
    FormedBody p types env env names lo hi [.block stmts] :=
  single h.placed (block_safe h.safe) h.declared h.valid

end FormedBody

end

end GridKernel.Target
