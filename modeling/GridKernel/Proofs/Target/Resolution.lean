import GridKernel.Proofs.Target.Bodies
import GridKernel.Proofs.Target.Renaming
import Mathlib.Data.List.Nodup

/-!
# The declarations that locals refer to

A local refers to the innermost declaration of its name in sight. In a kernel a declaration is in
sight after its end; in C it is in sight in its own initializer already. Declarations are numbered
in the order of the text, parameters first, and a program is resolved by giving each declaration,
and each local that refers to it, a label of its number.
-/

namespace GridKernel

open List Expr

set_option linter.unusedSectionVars false

/-- The declarations in sight, the innermost first, each with its number. -/
structure Sight where
  /-- The number of the next declaration. -/
  next : Nat
  names : List (String × Nat)
  below : ∀ p ∈ names, p.2 < next
  distinct : (names.map Prod.snd).Nodup

namespace Sight

def empty : Sight := ⟨0, [], nofun, .nil⟩

/-- A declaration comes into sight. -/
def bind (sight : Sight) (name : String) : Sight where
  next := sight.next + 1
  names := (name, sight.next) :: sight.names
  below := by
    intro p member
    rcases mem_cons.mp member with rfl | member
    · exact Nat.lt_succ_self _
    · exact Nat.lt_succ_of_lt (sight.below p member)
  distinct := by
    refine nodup_cons.mpr ⟨?_, sight.distinct⟩
    intro member
    obtain ⟨p, member, same⟩ := mem_map.mp member
    exact absurd same (Nat.ne_of_lt (sight.below p member))

/-- At the end of a block what it declared is out of sight, and its numbers are used up. -/
def leave (sight inner : Sight) : Sight where
  next := max sight.next inner.next
  names := sight.names
  below p member := Nat.lt_of_lt_of_le (sight.below p member) (Nat.le_max_left _ _)
  distinct := sight.distinct

/-- The number of the declaration that a name refers to, or the name itself if there is none. -/
def refersTo (sight : Sight) (name : String) : Nat ⊕ String :=
  match sight.names.lookup name with
  | some number => .inl number
  | none => .inr name

/-- What a local is called in the resolved program. -/
def named (sight : Sight) (label : Nat ⊕ String → String) (name : String) : String :=
  label (sight.refersTo name)

theorem refersTo_inl {sight : Sight} {name : String} {number : Nat} :
    sight.refersTo name = .inl number ↔ sight.names.lookup name = some number := by
  unfold refersTo
  cases sight.names.lookup name <;> simp

theorem refersTo_inr {sight : Sight} {name other : String}
    (h : sight.refersTo name = .inr other) : other = name := by
  unfold refersTo at h
  cases found : sight.names.lookup name with
  | none =>
    rw [found] at h
    exact (Sum.inr.inj h).symm
  | some number =>
    rw [found] at h
    cases h

theorem mem_of_lookup {names : List (String × Nat)} (found : names.lookup name = some number) :
    (name, number) ∈ names := by
  obtain ⟨before, after, rfl, -⟩ := lookup_eq_some_iff.mp found
  exact mem_append_right _ mem_cons_self

theorem refersTo_injective (sight : Sight) : Function.Injective sight.refersTo := by
  intro a b same
  cases second : sight.refersTo b with
  | inr name =>
    rw [second] at same
    rw [← refersTo_inr same, ← refersTo_inr second]
  | inl number =>
    rw [second] at same
    have first := mem_of_lookup (refersTo_inl.mp same)
    have other := mem_of_lookup (refersTo_inl.mp second)
    exact congrArg Prod.fst (inj_on_of_nodup_map sight.distinct first other rfl)

theorem refersTo_bind_self (sight : Sight) (name) :
    (sight.bind name).refersTo name = .inl sight.next :=
  refersTo_inl.mpr lookup_cons_self

theorem refersTo_bind_of_ne (sight : Sight) (apart : other ≠ name) :
    (sight.bind name).refersTo other = sight.refersTo other := by
  have later : (sight.bind name).names.lookup other = sight.names.lookup other := by
    change List.lookup other ((name, sight.next) :: sight.names) = _
    rw [lookup_cons, beq_false_of_ne apart]
  unfold refersTo
  rw [later]

/-- No declaration in sight has the next number. -/
theorem refersTo_ne_next (sight : Sight) (name) : sight.refersTo name ≠ .inl sight.next := by
  intro same
  have member := mem_of_lookup (refersTo_inl.mp same)
  exact Nat.lt_irrefl _ (sight.below _ member)

@[simp] theorem leave_leave (sight inner : Sight) :
    sight.leave (sight.leave inner) = sight.leave inner := by
  simp only [leave, Nat.max_eq_right (Nat.le_max_left _ _)]

variable {label : Nat ⊕ String → String}

theorem named_injective (apart : Function.Injective label) (sight : Sight) :
    Function.Injective (sight.named label) :=
  apart.comp sight.refersTo_injective

@[simp] theorem named_leave (sight inner : Sight) :
    (sight.leave inner).named label = sight.named label := rfl

end Sight

namespace Scope

theorem lookup?_declare {s : Scope} (inBlock : s.frames ≠ []) (name type other) :
    (s.declare name type).lookup? other = if other = name then some type else s.lookup? other := by
  obtain ⟨frames⟩ := s
  cases frames with
  | nil => exact absurd rfl inBlock
  | cons frame rest =>
    simp only [declare, lookup?, findSome?_cons, lookup_cons]
    by_cases same : other = name
    · simp [same]
    · simp [same, beq_false_of_ne same]

theorem frames_ne_nil_of_declare {s : Scope} {name other : String} {type t : ScalarType}
    (found : (s.declare name type).lookup? other = some t) : s.frames ≠ [] := by
  intro none
  obtain ⟨frames⟩ := s
  cases none
  cases found

end Scope

/-! ## Kernels -/

mutual

/-- What is in sight after a statement. -/
def Stmt.after (sight : Sight) : Stmt → Sight
  | .declare name _ _ => sight.bind name
  | .branch _ thenBody elseBody =>
    sight.leave (Stmt.afterAll (sight.leave (Stmt.afterAll sight thenBody)) elseBody)
  | .whileLoop _ body | .doWhile body _ | .block body => sight.leave (Stmt.afterAll sight body)
  | .forLoop init _ _ body =>
    let inner := Stmt.afterAll sight init
    sight.leave (inner.leave (Stmt.afterAll inner body))
  | .expr _ | .breakLoop | .continueLoop | .ret _ => sight

def Stmt.afterAll (sight : Sight) : List Stmt → Sight
  | [] => sight
  | s :: rest => Stmt.afterAll (s.after sight) rest

end

mutual

/-- The statement with its locals resolved. -/
def Stmt.resolve (label : Nat ⊕ String → String) (sight : Sight) : Stmt → Stmt
  | .declare _ type init =>
    .declare (label (.inl sight.next)) type (Expr.renameOption (sight.named label) init)
  | .expr e => .expr (e.rename (sight.named label))
  | .branch cond thenBody elseBody =>
    .branch (cond.rename (sight.named label)) (Stmt.resolveAll label sight thenBody)
      (Stmt.resolveAll label (sight.leave (Stmt.afterAll sight thenBody)) elseBody)
  | .whileLoop cond body =>
    .whileLoop (cond.rename (sight.named label)) (Stmt.resolveAll label sight body)
  | .doWhile body cond =>
    .doWhile (Stmt.resolveAll label sight body) (cond.rename (sight.named label))
  | .forLoop init cond update body =>
    let inner := Stmt.afterAll sight init
    .forLoop (Stmt.resolveAll label sight init) (Expr.renameOption (inner.named label) cond)
      (Expr.renameAll (inner.named label) update) (Stmt.resolveAll label inner body)
  | .breakLoop => .breakLoop
  | .continueLoop => .continueLoop
  | .ret value => .ret (Expr.renameOption (sight.named label) value)
  | .block body => .block (Stmt.resolveAll label sight body)

def Stmt.resolveAll (label : Nat ⊕ String → String) (sight : Sight) : List Stmt → List Stmt
  | [] => []
  | s :: rest => s.resolve label sight :: Stmt.resolveAll label (s.after sight) rest

end

/-- What is in sight after parameters. -/
def Sight.params (sight : Sight) : List Param → Sight
  | [] => sight
  | p :: rest => (sight.bind p.name).params rest

/-- Parameters called by their labels. -/
def Param.resolveAll (label : Nat ⊕ String → String) (sight : Sight) : List Param → List Param
  | [] => []
  | p :: rest =>
    { p with name := label (.inl sight.next) } :: Param.resolveAll label (sight.bind p.name) rest

/-- What is in sight at the beginning of a method's body. -/
def Method.sight (m : Method) : Sight := Sight.empty.params m.params

/-- The method with its locals resolved. -/
def Method.resolve (label : Nat ⊕ String → String) (m : Method) : Method :=
  { m with
    params := Param.resolveAll label .empty m.params
    body := Stmt.resolveAll label m.sight m.body }

/-! ## Target programs -/

namespace Target

def Expr.renameOption (ρ : String → String) : Option Expr → Option Expr
  | none => none
  | some e => some (e.rename ρ)

/-- What the initializer of a declaration sees. With `own` that is the declaration too. -/
def initializerSight (own : Bool) (sight : Sight) (name : String) : Sight :=
  if own then sight.bind name else sight

def ForInit.after (sight : Sight) : ForInit → Sight
  | .declare _ name _ => sight.bind name
  | .expr _ => sight

def ForInit.afterOption (sight : Sight) : Option ForInit → Sight
  | none => sight
  | some init => init.after sight

mutual

/-- What is in sight after a statement. -/
def Stmt.after (sight : Sight) : Stmt → Sight
  | .declare _ name _ => sight.bind name
  | .branch _ thenBody elseBody =>
    sight.leave (Stmt.afterAll (sight.leave (Stmt.afterAll sight thenBody)) elseBody)
  | .whileLoop _ body | .doWhile body _ | .block body => sight.leave (Stmt.afterAll sight body)
  | .forLoop init _ _ body =>
    let inner := ForInit.afterOption sight init
    sight.leave (inner.leave (Stmt.afterAll inner body))
  | .expr _ | .breakLoop | .continueLoop | .ret _ => sight

def Stmt.afterAll (sight : Sight) : List Stmt → Sight
  | [] => sight
  | s :: rest => Stmt.afterAll (s.after sight) rest

end

section

variable (own : Bool) (label : Nat ⊕ String → String)

def ForInit.resolve (sight : Sight) : ForInit → ForInit
  | .declare type name init =>
    .declare type (label (.inl sight.next))
      (Expr.renameOption ((initializerSight own sight name).named label) init)
  | .expr e => .expr (e.rename (sight.named label))

def ForInit.resolveOption (sight : Sight) : Option ForInit → Option ForInit
  | none => none
  | some init => some (init.resolve own label sight)

mutual

/-- The statement with its locals resolved. -/
def Stmt.resolve (sight : Sight) : Stmt → Stmt
  | .declare type name init =>
    .declare type (label (.inl sight.next))
      (Expr.renameOption ((initializerSight own sight name).named label) init)
  | .expr e => .expr (e.rename (sight.named label))
  | .branch cond thenBody elseBody =>
    .branch (cond.rename (sight.named label)) (Stmt.resolveAll sight thenBody)
      (Stmt.resolveAll (sight.leave (Stmt.afterAll sight thenBody)) elseBody)
  | .whileLoop cond body =>
    .whileLoop (cond.rename (sight.named label)) (Stmt.resolveAll sight body)
  | .doWhile body cond =>
    .doWhile (Stmt.resolveAll sight body) (cond.rename (sight.named label))
  | .forLoop init cond update body =>
    let inner := ForInit.afterOption sight init
    .forLoop (ForInit.resolveOption own label sight init)
      (Expr.renameOption (inner.named label) cond) (Expr.renameAll (inner.named label) update)
      (Stmt.resolveAll inner body)
  | .breakLoop => .breakLoop
  | .continueLoop => .continueLoop
  | .ret value => .ret (Expr.renameOption (sight.named label) value)
  | .block body => .block (Stmt.resolveAll sight body)

def Stmt.resolveAll (sight : Sight) : List Stmt → List Stmt
  | [] => []
  | s :: rest => s.resolve sight :: Stmt.resolveAll (s.after sight) rest

end

end

/-- The body with its locals resolved, with `own` by the rules of C. -/
def Body.resolve (own : Bool) (label : Nat ⊕ String → String) (sight : Sight) (b : Body) : Body :=
  { b with stmts := Stmt.resolveAll own label sight b.stmts }

/-! ## Initializers that mention what they initialize -/

section

variable {ρ ρ' : String → String} {name : String} (others : ∀ x, x ≠ name → ρ x = ρ' x)
  (differ : ρ name ≠ ρ' name)
include others differ

mutual

/-- Two renamings that differ in one name agree on the expressions that do not mention it. -/
theorem Expr.rename_eq_iff :
    ∀ e : Expr, e.rename ρ = e.rename ρ' ↔ e.mentions name = false
  | .literal _ | .temp _ | .member _ | .lengthOf _ => ⟨fun _ => rfl, fun _ => rfl⟩
  | .var other => by
    simp only [Expr.rename, Expr.mentions, Expr.var.injEq]
    by_cases same : other = name
    · subst same
      simp [differ]
    · simp [same, others other same]
  | .element _ e | .addressOf _ e | .paren e | .unary _ e | .cast _ e | .step _ _ e => by
    simp [Expr.rename, Expr.mentions, rename_eq_iff e]
  | .binary _ l r | .shiftUnsigned _ l r | .assign l r | .compound _ l r => by
    simp [Expr.rename, Expr.mentions, rename_eq_iff l,
      rename_eq_iff r]
  | .conditional cond thenValue elseValue => by
    simp [Expr.rename, Expr.mentions, rename_eq_iff cond,
      rename_eq_iff thenValue, rename_eq_iff elseValue,
      and_assoc]
  | .call _ args => by
    simp [Expr.rename, Expr.mentions, renameAll_eq_iff args]
  | .comma first value => by
    simp [Expr.rename, Expr.mentions, renameAll_eq_iff first,
      rename_eq_iff value]

theorem Expr.renameAll_eq_iff :
    ∀ es : List Expr, Expr.renameAll ρ es = Expr.renameAll ρ' es ↔
      Expr.anyMentions name es = false
  | [] => ⟨fun _ => rfl, fun _ => rfl⟩
  | e :: rest => by
    simp [Expr.renameAll, Expr.anyMentions, rename_eq_iff e,
      renameAll_eq_iff rest]

end

end

section

variable {label : Nat ⊕ String → String} (apart : Function.Injective label)
include apart

theorem initializer_eq_iff (sight name init) :
    Expr.renameOption ((initializerSight true sight name).named label) init =
        Expr.renameOption ((initializerSight false sight name).named label) init ↔
      initializesItself name init = false := by
  have others : ∀ x, x ≠ name → (sight.bind name).named label x = sight.named label x :=
    fun x ne => congrArg label (sight.refersTo_bind_of_ne ne)
  have differ : (sight.bind name).named label name ≠ sight.named label name := by
    intro same
    have referred := apart same
    rw [sight.refersTo_bind_self] at referred
    exact sight.refersTo_ne_next name referred.symm
  cases init with
  | none => exact ⟨fun _ => rfl, fun _ => rfl⟩
  | some e =>
    simp only [Expr.renameOption, Option.some.injEq, initializesItself, Option.any_some]
    exact Expr.rename_eq_iff others differ e

theorem ForInit.resolve_eq_iff (sight init) :
    ForInit.resolveOption true label sight init = ForInit.resolveOption false label sight init ↔
      init.any (·.declares initializesItself) = false := by
  cases init with
  | none => exact ⟨fun _ => rfl, fun _ => rfl⟩
  | some init =>
    cases init with
    | declare type name init =>
      simp [ForInit.resolveOption, ForInit.resolve, ForInit.declares, initializer_eq_iff apart]
    | expr e => exact ⟨fun _ => rfl, fun _ => rfl⟩

mutual

/-- The two rules part where an initializer mentions the local that it initializes. -/
theorem Stmt.resolve_eq_iff (sight : Sight) :
    ∀ s : Stmt, s.resolve true label sight = s.resolve false label sight ↔
      s.declares initializesItself = false
  | .declare type name init => by
    simp [Stmt.resolve, Stmt.declares, initializer_eq_iff apart]
  | .expr _ | .breakLoop | .continueLoop | .ret _ => ⟨fun _ => rfl, fun _ => rfl⟩
  | .branch cond thenBody elseBody => by
    simp [Stmt.resolve, Stmt.declares, Stmt.resolveAll_eq_iff sight thenBody,
      Stmt.resolveAll_eq_iff (sight.leave (Stmt.afterAll sight thenBody)) elseBody]
  | .whileLoop _ body | .doWhile body _ | .block body => by
    simp [Stmt.resolve, Stmt.declares, Stmt.resolveAll_eq_iff sight body]
  | .forLoop init cond update body => by
    simp [Stmt.resolve, Stmt.declares, ForInit.resolve_eq_iff apart,
      Stmt.resolveAll_eq_iff (ForInit.afterOption sight init) body]

theorem Stmt.resolveAll_eq_iff (sight : Sight) :
    ∀ ss : List Stmt, Stmt.resolveAll true label sight ss = Stmt.resolveAll false label sight ss ↔
      Stmt.anyDeclares initializesItself ss = false
  | [] => ⟨fun _ => rfl, fun _ => rfl⟩
  | s :: rest => by
    simp [Stmt.resolveAll, Stmt.anyDeclares, Stmt.resolve_eq_iff sight s,
      Stmt.resolveAll_eq_iff (s.after sight) rest]

end

end

/-! ## Translation of resolved statements -/

open Typing (Renamed)

variable {d : Descriptor} {s s' : Scope} {sight sight' : Sight} {label : Nat ⊕ String → String}

/-- The second scope has the locals of the first one under their labels. -/
structure Tracks (label : Nat ⊕ String → String) (sight : Sight) (s s' : Scope) : Prop where
  renamed : Renamed (sight.named label) s s'
  /-- There is a block to declare locals in. -/
  inBlock : s'.frames ≠ []

namespace Tracks

theorem push (h : Tracks label sight s s') : Tracks label sight s.push s'.push where
  renamed := h.renamed
  inBlock := cons_ne_nil _ _

theorem leave (h : Tracks label sight s s') (inner) :
    Tracks label (sight.leave inner) s s' where
  renamed := h.renamed
  inBlock := h.inBlock

theorem declare (apart : Function.Injective label) (h : Tracks label sight s s') (name type) :
    Tracks label (sight.bind name) (s.declare name type)
      (s'.declare (label (.inl sight.next)) type) where
  renamed := by
    intro x t found
    rw [Scope.lookup?_declare h.inBlock]
    by_cases same : x = name
    · subst same
      rw [Scope.lookup?_declare (Scope.frames_ne_nil_of_declare found), if_pos rfl] at found
      rw [Sight.named, sight.refersTo_bind_self, if_pos rfl]
      exact found
    · rw [Scope.lookup?_declare (Scope.frames_ne_nil_of_declare found), if_neg same] at found
      have other : label (sight.refersTo x) ≠ label (.inl sight.next) :=
        fun equal => sight.refersTo_ne_next x (apart equal)
      rw [Sight.named, sight.refersTo_bind_of_ne same, if_neg other]
      exact h.renamed x t found
  inBlock := by
    obtain ⟨frames⟩ := s'
    cases frames with
    | nil => exact h.inBlock
    | cons frame rest => exact cons_ne_nil _ _

end Tracks

/-- What is emitted on the left is emitted on the right, up to a relation. -/
def CarriesTo {α β : Type} (related : α → β → Prop) (x : Emit α) (y : Emit β) : Prop :=
  ∀ temps a temps', x temps = .ok (a, temps') → ∃ b, y temps = .ok (b, temps') ∧ related a b

namespace CarriesTo

variable {α β γ δ : Type}

theorem ret (h : related a b) : CarriesTo related (pure a) (pure b) := by
  intro temps a' temps' ended
  cases ended
  exact ⟨b, rfl, h⟩

theorem andThen (h : CarriesTo related x y)
    (next : ∀ a b, related a b → CarriesTo related' (k a) (k' b)) :
    CarriesTo related' (x >>= k) (y >>= k') := by
  intro temps c temps' ended
  obtain ⟨⟨a, temps₁⟩, first, later⟩ := Outcome.bind_eq_ok.mp ended
  obtain ⟨b, first', holds⟩ := h _ _ _ first
  obtain ⟨c', later', holds'⟩ := next a b holds _ _ _ later
  exact ⟨c', Outcome.bind_eq_ok.mpr ⟨(b, temps₁), first', later'⟩, holds'⟩

end CarriesTo

theorem Carries.thenTo (h : Carries f x y) (next : ∀ a, CarriesTo related (k a) (k' (f a))) :
    CarriesTo related (x >>= k) (y >>= k') := by
  have carried : CarriesTo (fun a b => b = f a) x y :=
    fun _ a _ ended => ⟨f a, h _ _ _ ended, rfl⟩
  exact carried.andThen fun a _ same => same ▸ next a

theorem inlineAll_carries (apart : Function.Injective ρ) (renamed : Renamed ρ s s') (es) :
    Carries (Expr.renameAll ρ) (inlineAll d s es)
      (inlineAll d s' (GridKernel.Expr.renameAll ρ es)) := by
  induction es with
  | nil => exact .ret rfl
  | cons e rest ih =>
    refine (expr_carries apart renamed e).andThen fun r => ih.andThen fun rs => .ret ?_
    rw [Expr.renameAll, Emitted.inline_rename]

theorem inlineOption_carries (apart : Function.Injective ρ) (renamed : Renamed ρ s s') (o) :
    Carries (Expr.renameOption ρ) (inlineOption d s o)
      (inlineOption d s' (GridKernel.Expr.renameOption ρ o)) := by
  cases o with
  | none => exact .ret rfl
  | some e =>
    refine (expr_carries apart renamed e).andThen fun r => .ret ?_
    rw [Expr.renameOption, Emitted.inline_rename]

theorem Stmt.afterAll_append (sight first rest) :
    Stmt.afterAll sight (first ++ rest) = Stmt.afterAll (Stmt.afterAll sight first) rest := by
  induction first generalizing sight with
  | nil => rfl
  | cons st others ih => exact ih (st.after sight)

theorem Stmt.resolveAll_append (own) (label : Nat ⊕ String → String) (sight first rest) :
    Stmt.resolveAll own label sight (first ++ rest) =
      Stmt.resolveAll own label sight first ++
        Stmt.resolveAll own label (Stmt.afterAll sight first) rest := by
  induction first generalizing sight with
  | nil => rfl
  | cons st others ih => exact congrArg (st.resolve own label sight :: ·) (ih (st.after sight))

@[simp] theorem Emitted.afterAll_lifted (sight) (em : Emitted) :
    Stmt.afterAll sight em.lifted = sight := by
  unfold Emitted.lifted
  induction em.pre with
  | nil => rfl
  | cons e rest ih => exact ih

@[simp] theorem Emitted.resolveAll_lifted (own) (label : Nat ⊕ String → String) (sight)
    (em : Emitted) :
    Stmt.resolveAll own label sight em.lifted = (em.rename (sight.named label)).lifted := by
  unfold Emitted.lifted
  rw [Emitted.pre_rename]
  induction em.pre with
  | nil => rfl
  | cons e rest ih => exact congrArg (Stmt.expr (e.rename (sight.named label)) :: ·) ih

/-- A list of statements and what is in sight after it, before and after resolution. -/
structure Resolved (label : Nat ⊕ String → String) (sight sight' : Sight)
    (r r' : List Stmt × Scope) : Prop where
  stmts : r'.1 = Stmt.resolveAll false label sight r.1
  after : Stmt.afterAll sight r.1 = sight'
  scope : Tracks label sight' r.2 r'.2

theorem Resolved.single (resolved : st' = st.resolve false label sight)
    (after : st.after sight = sight') (h : Tracks label sight' s₁ s₁') :
    Resolved label sight sight' ([st], s₁) ([st'], s₁') where
  stmts := congrArg (fun st' => [st']) resolved
  after := after
  scope := h

/-- What an expression needs to run first does not declare anything. -/
theorem Resolved.lift (em : Emitted) (resolved : st' = st.resolve false label sight)
    (after : st.after sight = sight') (h : Tracks label sight' s₁ s₁') :
    Resolved label sight sight' (em.lifted ++ [st], s₁)
      ((em.rename (sight.named label)).lifted ++ [st'], s₁') where
  stmts := by
    simp only [Stmt.resolveAll_append, Emitted.resolveAll_lifted, Emitted.afterAll_lifted,
      Stmt.resolveAll, resolved]
  after := by simp only [Stmt.afterAll_append, Emitted.afterAll_lifted, Stmt.afterAll, after]
  scope := h

def LoopInit.resolve (label : Nat ⊕ String → String) (sight : Sight) : LoopInit → LoopInit
  | .head init => .head (ForInit.resolveOption false label sight init)
  | .before stmts => .before (Stmt.resolveAll false label sight stmts)

def LoopInit.after (sight : Sight) : LoopInit → Sight
  | .head init => ForInit.afterOption sight init
  | .before stmts => Stmt.afterAll sight stmts

theorem LoopInit.resolve_ofStmts (label : Nat ⊕ String → String) (sight stmts) :
    LoopInit.ofStmts (Stmt.resolveAll false label sight stmts) =
      (LoopInit.ofStmts stmts).resolve label sight := by
  match stmts with
  | [] => rfl
  | [st] => cases st <;> rfl
  | first :: second :: rest => cases first <;> rfl

theorem LoopInit.after_ofStmts (sight stmts) :
    (LoopInit.ofStmts stmts).after sight = Stmt.afterAll sight stmts := by
  match stmts with
  | [] => rfl
  | [st] => cases st <;> rfl
  | first :: second :: rest => cases first <;> rfl

section

variable (apart : Function.Injective label)
include apart

mutual

/-- By induction on statements; the two scopes stay in step. -/
theorem stmt_carries {sight : Sight} {s s' : Scope}
    (h : Tracks label sight s s') :
    ∀ st : GridKernel.Stmt, CarriesTo (Resolved label sight (st.after sight)) (stmt d s st)
      (stmt d s' (st.resolve label sight))
  | .declare name type none => .ret (.single rfl rfl (h.declare apart name type))
  | .declare name type (some init) =>
    (expr_carries (sight.named_injective apart) h.renamed init).thenTo fun e =>
      .ret (.lift e rfl rfl (h.declare apart name type))
  | .expr e =>
    (expr_carries (sight.named_injective apart) h.renamed e).thenTo fun e =>
      .ret (.lift e rfl rfl h)
  | .branch cond thenBody elseBody => by
    refine (expr_carries (sight.named_injective apart) h.renamed cond).thenTo fun c => ?_
    refine (body_carries h.push thenBody).andThen ?_
    rintro ⟨t, s₁⟩ ⟨t', s₁'⟩ ⟨rfl, first, -⟩
    refine (body_carries (h.push.leave _) elseBody).andThen ?_
    rintro ⟨e, s₂⟩ ⟨e', s₂'⟩ ⟨rfl, second, -⟩
    refine .ret (.lift c ?_ ?_ (h.leave _))
    · simp only [Stmt.resolve, Emitted.value_rename, first]
    · simp only [Stmt.after, GridKernel.Stmt.after, first, second]
  | .whileLoop cond block => by
    refine (expr_carries (sight.named_injective apart) h.renamed cond).thenTo fun c => ?_
    refine (body_carries h.push block).andThen ?_
    rintro ⟨b, s₁⟩ ⟨b', s₁'⟩ ⟨rfl, inner, -⟩
    refine .ret (.single ?_ ?_ (h.leave _))
    · simp only [Stmt.resolve, Emitted.inline_rename]
    · simp only [Stmt.after, GridKernel.Stmt.after, inner]
  | .doWhile block cond => by
    refine (body_carries h.push block).andThen ?_
    rintro ⟨b, s₁⟩ ⟨b', s₁'⟩ ⟨rfl, inner, -⟩
    refine (expr_carries (sight.named_injective apart) h.renamed cond).thenTo fun c => ?_
    refine .ret (.single ?_ ?_ (h.leave _))
    · simp only [Stmt.resolve, Emitted.inline_rename]
    · simp only [Stmt.after, GridKernel.Stmt.after, inner]
  | .forLoop init cond update block => by
    refine (body_carries h.push init).andThen ?_
    rintro ⟨i, s₁⟩ ⟨i', s₁'⟩ ⟨rfl, first, tracks⟩
    have distinct := (GridKernel.Stmt.afterAll sight init).named_injective apart
    refine (inlineOption_carries distinct tracks.renamed cond).thenTo fun c => ?_
    refine (inlineAll_carries distinct tracks.renamed update).thenTo fun u => ?_
    refine (body_carries tracks.push block).andThen ?_
    rintro ⟨b, s₂⟩ ⟨b', s₂'⟩ ⟨rfl, inner, -⟩
    have head := LoopInit.after_ofStmts sight i
    rw [LoopInit.resolve_ofStmts]
    cases shape : LoopInit.ofStmts i with
    | head start =>
      rw [shape, first] at head
      change ForInit.afterOption sight start = _ at head
      refine .ret (.single ?_ ?_ (h.leave _))
      · simp only [Stmt.resolve, head]
      · simp only [Stmt.after, GridKernel.Stmt.after, head, inner]
    | before stmts =>
      rw [shape, first] at head
      change Stmt.afterAll sight stmts = _ at head
      refine .ret (.single ?_ ?_ (h.leave _))
      · simp only [Stmt.resolve, Stmt.resolveAll_append, Stmt.resolveAll, ForInit.resolveOption,
          ForInit.afterOption, head]
      · simp only [Stmt.after, Stmt.afterAll_append, Stmt.afterAll, ForInit.afterOption, head,
          GridKernel.Stmt.after, inner, Sight.leave_leave]
  | .breakLoop | .continueLoop | .ret none => .ret (.single rfl rfl h)
  | .ret (some value) =>
    (expr_carries (sight.named_injective apart) h.renamed value).thenTo fun e =>
      .ret (.lift e rfl rfl h)
  | .block block => by
    refine (body_carries h.push block).andThen ?_
    rintro ⟨b, s₁⟩ ⟨b', s₁'⟩ ⟨rfl, inner, -⟩
    refine .ret (.single rfl ?_ (h.leave _))
    simp only [Stmt.after, GridKernel.Stmt.after, inner]

theorem body_carries {sight : Sight} {s s' : Scope}
    (h : Tracks label sight s s') :
    ∀ stmts : List GridKernel.Stmt,
      CarriesTo (Resolved label sight (GridKernel.Stmt.afterAll sight stmts)) (body d s stmts)
        (body d s' (GridKernel.Stmt.resolveAll label sight stmts))
  | [] => .ret ⟨rfl, rfl, h⟩
  | first :: rest => by
    refine (stmt_carries h first).andThen ?_
    rintro ⟨out, s₁⟩ ⟨out', s₁'⟩ ⟨rfl, after, tracks⟩
    refine (body_carries tracks rest).andThen ?_
    rintro ⟨more, s₂⟩ ⟨more', s₂'⟩ ⟨rfl, after', tracks'⟩
    refine .ret ⟨?_, ?_, tracks'⟩
    · rw [Stmt.resolveAll_append, after]
    · rw [Stmt.afterAll_append, after, after']
      rfl

end

/-! ## Methods -/

theorem Tracks.params (h : Tracks label sight s s') (params) :
    Tracks label (sight.params params)
      (params.foldl (fun s p => s.declare p.name p.type) s)
      ((Param.resolveAll label sight params).foldl (fun s p => s.declare p.name p.type) s') := by
  induction params generalizing sight s s' with
  | nil => exact h
  | cons p rest ih => exact ih (h.declare apart p.name p.type)

theorem tracks_ofMethod (m) : Tracks label m.sight (.ofMethod m) (.ofMethod (m.resolve label)) := by
  have start : Tracks label .empty ⟨[[]]⟩ ⟨[[]]⟩ :=
    ⟨fun _ _ => nofun, cons_ne_nil _ _⟩
  exact start.params apart m.params

/-- Resolving a method resolves its translation, as long as no initializer sees the local that it
initializes. -/
theorem methodBody_resolve (h : methodBody d m = .ok b) :
    methodBody d (m.resolve label) = .ok (b.resolve false label m.sight) := by
  obtain ⟨⟨⟨out, s₁⟩, temps⟩, emits, finished⟩ := Outcome.bind_eq_ok.mp h
  cases finished
  obtain ⟨⟨out', s₁'⟩, translated', rfl, -, -⟩ :=
    body_carries apart (tracks_ofMethod apart m) m.body [] _ _ emits
  exact Outcome.bind_eq_ok.mpr ⟨_, translated', rfl⟩

theorem Body.resolve_eq_iff (sight) (b : Body) :
    b.resolve true label sight = b.resolve false label sight ↔
      Stmt.anyDeclares initializesItself b.stmts = false := by
  rw [← Stmt.resolveAll_eq_iff apart sight]
  exact ⟨congrArg Body.stmts, congrArg (Body.mk b.temps)⟩

end

/-- Every method of a checked kernel is translated. In the translation every local refers to the
declaration that it refers to in the kernel, if a declaration comes into sight after its
initializer. It comes into sight before it; so they all do exactly if no initializer mentions the
local that it initializes. -/
theorem translation_resolves_locals (checked : Typing.check d = .ok ()) {m : Method}
    (member : m ∈ d.methods) (apart : Function.Injective label) :
    ∃ b, methodBody d m = .ok b ∧
      methodBody d (m.resolve label) = .ok (b.resolve false label m.sight) ∧
      (methodBody d (m.resolve label) = .ok (b.resolve true label m.sight) ↔
        Stmt.anyDeclares initializesItself b.stmts = false) := by
  -- The work-item does not matter to the translation.
  let item : WorkItem := ⟨⟨0, 0, 0⟩, ⟨1, 1, 1⟩, ⟨1, 1, 1⟩, 0⟩
  obtain ⟨b, emits, -⟩ := faithful_method (c := ⟨d, [], item⟩) checked member
  have resolved := methodBody_resolve apart emits
  refine ⟨b, emits, resolved, ?_⟩
  rw [resolved, Except.ok.injEq, eq_comm]
  exact b.resolve_eq_iff apart m.sight

/-- A label of its own for each declaration. -/
def plainLabel : Nat ⊕ String → String
  | .inl number => String.ofList ('v' :: List.replicate number 'v')
  | .inr name => "u" ++ name

theorem plainLabel_injective : Function.Injective plainLabel := by
  intro a b same
  have same : (plainLabel a).toList = (plainLabel b).toList := congrArg String.toList same
  cases a with
  | inl i =>
    cases b with
    | inl j =>
      have lengths := congrArg List.length same
      simp [plainLabel] at lengths
      rw [lengths]
    | inr y => simp [plainLabel] at same
  | inr x =>
    cases b with
    | inl j => simp [plainLabel] at same
    | inr y =>
      simp only [plainLabel, String.toList_append, append_cancel_left_eq] at same
      exact congrArg Sum.inr (String.toList_inj.mp same)

/-- Locals of one name in nested blocks: `int x = 1; for (int y = x++; y < 2; y++) { int x = y;
a[x] = x; }`. -/
def nestedMain : Method where
  name := "run"
  body :=
    [.declare "x" .int (some (.int 1)),
      .forLoop [.declare "y" .int (some (.step (.var "x") .inc false))]
        (some (.binary .lt (.var "y") (.int 2))) [.step (.var "y") .inc false]
        [.declare "x" .int (some (.var "y")),
          .expr (.assign (.element "a" (.var "x")) none (.var "x"))]]

theorem nested_locals_resolve :
    Typing.check (arrayDescriptor nestedMain) = .ok () ∧
      ∃ b, methodBody (arrayDescriptor nestedMain) nestedMain = .ok b ∧
        methodBody (arrayDescriptor nestedMain) (nestedMain.resolve plainLabel) =
          .ok (b.resolve true plainLabel nestedMain.sight) := by
  have checked : Typing.check (arrayDescriptor nestedMain) = .ok () := by decide
  refine ⟨checked, ?_⟩
  obtain ⟨b, emits, -, agrees⟩ :=
    translation_resolves_locals checked mem_cons_self plainLabel_injective
  refine ⟨b, emits, agrees.mpr ?_⟩
  cases emits
  rfl

/-- `int x = 1; { int x = x + 1; a[0] = x; }`: the initializer means the outer local. -/
def shadowMain : Method where
  name := "run"
  body :=
    [.declare "x" .int (some (.int 1)),
      .block
        [.declare "x" .int (some (.binary .add (.var "x") (.int 1))),
          .expr (.assign (.element "a" (.int 0)) none (.var "x"))]]

/-- In the translation the initializer means the local that it initializes. -/
theorem shadowing_initializer_captured :
    Typing.check (arrayDescriptor shadowMain) = .ok () ∧
      ∃ b, methodBody (arrayDescriptor shadowMain) shadowMain = .ok b ∧
        methodBody (arrayDescriptor shadowMain) (shadowMain.resolve plainLabel) ≠
          .ok (b.resolve true plainLabel shadowMain.sight) := by
  refine ⟨by decide, _, rfl, ?_⟩
  intro captured
  have resolved : methodBody (arrayDescriptor shadowMain) (shadowMain.resolve plainLabel) = .ok _ :=
    methodBody_resolve plainLabel_injective rfl
  have same := Except.ok.inj (captured.symm.trans resolved)
  have apart := (Body.resolve_eq_iff plainLabel_injective _ _).mp same
  cases apart

end Target

end GridKernel
