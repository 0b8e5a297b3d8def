import GridKernel.Proofs.Target.Sites
import GridKernel.Proofs.Typing.State

/-!
# Declarations in blocks

Statements declare names in the block that they stand in and in the blocks inside them. Here is what
it is for translated statements to declare no name twice in a block: the locals of their block are
those that the checker's scope has gained, and each was new to it.
-/

namespace GridKernel

open List

/-- The names that the innermost block declares. -/
def Scope.own (s : Scope) : List String := (s.frames.headD []).map Prod.fst

theorem Scope.own_declare {s : Scope} {name : String} (fresh : s.declares name = false) (t) :
    (s.declare name t).own = name :: s.own := by
  obtain ⟨frames⟩ := s
  cases frames with
  | nil => cases fresh
  | cons frame rest => rfl

theorem Scope.not_mem_own {s : Scope} {name : String} (fresh : s.declares name = false) :
    name ∉ s.own := by
  obtain ⟨frames⟩ := s
  cases frames with
  | nil => cases fresh
  | cons frame rest =>
    intro member
    obtain ⟨q, inside, rfl⟩ := mem_map.mp member
    have none : frame.lookup q.1 = none := by simpa [declares] using fresh
    simpa using lookup_eq_none_iff.mp none q inside

theorem Scope.own_ofMethod (m) : (Scope.ofMethod m).own = (m.params.map Param.name).reverse := by
  simp [ofMethod_eq, own, Function.comp_def]

namespace Target

/-! ## Blocks -/

/-- The name that a statement declares in the block that it stands in. -/
def Stmt.name? : Stmt → Option String
  | .declare _ name _ => some name
  | _ => none

/-- The names that the block of these statements declares. -/
def blockNames (stmts : List Stmt) : List String := stmts.filterMap Stmt.name?

mutual

/-- The names that each block inside a statement declares. The head of a `for` is a block around
that of its body. -/
def Stmt.blocks : Stmt → List (List String)
  | .branch _ thenBody elseBody =>
    blockNames thenBody :: Stmt.allBlocks thenBody ++ blockNames elseBody :: Stmt.allBlocks elseBody
  | .whileLoop _ body | .doWhile body _ | .block body => blockNames body :: Stmt.allBlocks body
  | .forLoop init _ _ body =>
    blockNames (init.toList.map ForInit.stmt) :: blockNames body :: Stmt.allBlocks body
  | .declare _ _ _ | .expr _ | .breakLoop | .continueLoop | .ret _ => []

def Stmt.allBlocks : List Stmt → List (List String)
  | [] => []
  | s :: rest => s.blocks ++ Stmt.allBlocks rest

end

theorem Stmt.allBlocks_append (first rest) :
    Stmt.allBlocks (first ++ rest) = Stmt.allBlocks first ++ Stmt.allBlocks rest := by
  induction first with
  | nil => rfl
  | cons s others ih => simp [Stmt.allBlocks, ih]

/-- The statements lead from one scope to the other, and no block of them declares a name twice. -/
structure DeclaresOnce (s s' : Scope) (stmts : List Stmt) : Prop where
  after : s'.own = (blockNames stmts).reverse ++ s.own
  distinct : (blockNames stmts).Nodup
  fresh : ∀ name ∈ blockNames stmts, name ∉ s.own ∧ Name.isValid name = true
  inside : ∀ names ∈ Stmt.allBlocks stmts, names.Nodup

namespace DeclaresOnce

theorem nil : DeclaresOnce s s [] :=
  ⟨rfl, nodup_nil, forall_mem_nil _, forall_mem_nil _⟩

theorem declare (type init) (fresh : s.declares name = false) (valid : Name.isValid name = true) :
    DeclaresOnce s (s.declare name type) [.declare type name init] where
  after := Scope.own_declare fresh type
  distinct := nodup_singleton name
  fresh := forall_mem_singleton.mpr ⟨Scope.not_mem_own fresh, valid⟩
  inside := forall_mem_nil _

/-- A statement other than a declaration. -/
theorem single (none : st.name? = none) (inside : ∀ names ∈ st.blocks, names.Nodup) :
    DeclaresOnce s s [st] := by
  have names : blockNames [st] = [] := by simp [blockNames, none]
  constructor <;> simp_all [Stmt.allBlocks]

/-- A statement without blocks. -/
theorem leaf (none : st.name? = none) (plain : st.blocks = []) : DeclaresOnce s s [st] :=
  single none (plain ▸ forall_mem_nil _)

theorem append (h : DeclaresOnce s s₁ first) (h' : DeclaresOnce s₁ s' rest) :
    DeclaresOnce s s' (first ++ rest) := by
  have names : blockNames (first ++ rest) = blockNames first ++ blockNames rest :=
    filterMap_append
  have apart : ∀ name ∈ blockNames rest, name ∉ blockNames first ∧ name ∉ s.own := by
    intro name member
    have fresh := (h'.fresh name member).1
    rw [h.after] at fresh
    simpa using fresh
  constructor
  · rw [h'.after, h.after, names, reverse_append, append_assoc]
  · rw [names, nodup_append']
    exact ⟨h.distinct, h'.distinct, fun name mine theirs => (apart name theirs).1 mine⟩
  · rw [names]
    exact forall_mem_append.mpr ⟨h.fresh, fun name member =>
      ⟨(apart name member).2, (h'.fresh name member).2⟩⟩
  · rw [Stmt.allBlocks_append]
    exact forall_mem_append.mpr ⟨h.inside, h'.inside⟩

/-- Expressions that run before a statement declare nothing. -/
theorem lifted (e : Emitted) (h : DeclaresOnce s s' stmts) :
    DeclaresOnce s s' (e.lifted ++ stmts) := by
  unfold Emitted.lifted
  induction e.pre with
  | nil => exact h
  | cons first others ih =>
    have head : DeclaresOnce s s [.expr first] := leaf rfl rfl
    exact head.append ih

/-- The block that the statements are. -/
theorem block (h : DeclaresOnce s s' stmts) :
    ∀ names ∈ blockNames stmts :: Stmt.allBlocks stmts, names.Nodup :=
  forall_mem_cons.mpr ⟨h.distinct, h.inside⟩

/-- A loop whose initializer is a block around that of its body. -/
theorem loop (cond update) (start : DeclaresOnce s s₁ (init.toList.map ForInit.stmt))
    (inner : DeclaresOnce s₂ s' stmts) : DeclaresOnce t t [.forLoop init cond update stmts] :=
  single rfl (forall_mem_cons.mpr ⟨start.distinct, inner.block⟩)

end DeclaresOnce

end Target

end GridKernel
