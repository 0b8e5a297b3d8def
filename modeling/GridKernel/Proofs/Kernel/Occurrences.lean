import GridKernel.Proofs.Kernel.Linearize
import GridKernel.Target.Program
import Mathlib.Data.List.Nodup
import Mathlib.Tactic.Choose

/-!
# Every expression is visited once

An occurrence is the way to an expression of a body: through nested statements, to an expression
that the last of them holds itself, and on through the parts of that one. The ways are read off the
syntax role by role and say nothing of an order. Each traversal visits every occurrence once, so it
does not matter which of them a pass over the methods takes.
-/

namespace GridKernel

open List

/-! ## Entries of a list -/

section

variable {α β κ μ : Type}

/-- In some order, the list has one entry for each key at which there is something. -/
def EachOnce (look : κ → Option α) (listed : List α) : Prop :=
  ∃ found : List (κ × α), (found.map Prod.fst).Nodup ∧
    (∀ k a, (k, a) ∈ found ↔ look k = some a) ∧ (found.map Prod.snd).Perm listed

theorem EachOnce.getElem? (as : List α) : EachOnce (fun i : Nat => as[i]?) as := by
  refine ⟨as.zipIdx.map Prod.swap, ?_, fun i a => by simp [mem_zipIdx_iff_getElem?], ?_⟩
  · rw [map_map]
    exact (zipIdx_map_snd 0 as).symm ▸ nodup_range'
  · rw [map_map]
    exact .of_eq (zipIdx_map_fst 0 as)

/-- What there is inside of what there is has a pair of keys. -/
theorem EachOnce.flatMap {look : κ → Option α} {inside : α → μ → Option β}
    (h : EachOnce look as) (each : ∀ a ∈ as, EachOnce (inside a) (f a)) :
    EachOnce (fun k : κ × μ => (look k.1).bind (inside · k.2)) (as.flatMap f) := by
  obtain ⟨found, distinct, exact, listed⟩ := h
  have below : ∀ x ∈ found, EachOnce (inside x.2) (f x.2) := fun x member =>
    each x.2 (listed.subset (mem_map_of_mem member))
  choose! parts apart exact' listed' using below
  refine ⟨found.flatMap fun x => (parts x).map fun y => ((x.1, y.1), y.2), ?_, ?_, ?_⟩
  · rw [map_flatMap]
    refine nodup_flatMap.mpr ⟨fun x member => ?_, ?_⟩
    · have pairs := (apart x member).map (Prod.mk_right_injective x.1)
      rw [map_map] at pairs ⊢
      exact pairs
    · refine (pairwise_map.mp distinct).imp fun different k first second => ?_
      simp only [map_map, mem_map, Function.comp_apply] at first second
      obtain ⟨_, _, rfl⟩ := first
      obtain ⟨_, _, same⟩ := second
      exact different (congrArg Prod.fst same).symm
  · rintro ⟨k, l⟩ b
    simp only [mem_flatMap, mem_map, Option.bind_eq_some_iff]
    constructor
    · rintro ⟨x, member, y, part, same⟩
      cases same
      exact ⟨x.2, (exact ..).mp member, (exact' x member ..).mp part⟩
    · rintro ⟨a, here, there⟩
      have member := (exact k a).mpr here
      exact ⟨_, member, _, (exact' _ member l b).mpr there, rfl⟩
  · rw [map_flatMap]
    refine Perm.trans (Perm.flatMap_left _ fun x member => ?_) (flatMap_map .. ▸ listed.flatMap_right f)
    rw [map_map]
    exact listed' x member

/-- Goes from a thing to one of its parts, again and again. A part is known by its role and by its
number among the parts in this role. -/
def follow (partsIn : α → κ → List α) : α → List (κ × Nat) → Option α
  | a, [] => some a
  | a, (role, i) :: way => (partsIn a role)[i]?.bind (follow partsIn · way)

/-- By induction on the parts: the thing itself is at the end of the empty way. -/
theorem Listed.eachOnce {list parts : α → List α} {partsIn : α → κ → List α} {roles : List κ}
    (h : Listed list parts) (every : EachOnce some roles)
    (split : ∀ a, parts a = roles.flatMap (partsIn a)) (a) :
    EachOnce (follow partsIn a) (list a) := by
  refine h.induct (P := fun a => EachOnce (follow partsIn a) (list a)) (fun a ih => ?_) a
  have direct : EachOnce (fun k : κ × Nat => (partsIn a k.1)[k.2]?) (parts a) :=
    split a ▸ every.flatMap fun role _ => .getElem? (partsIn a role)
  obtain ⟨found, distinct, exact, listed⟩ := direct.flatMap ih
  refine ⟨([], a) :: found.map fun x => (x.1.1 :: x.1.2, x.2), ?_, ?_, ?_⟩
  · have longer := distinct.map (f := fun k : (κ × Nat) × List (κ × Nat) => k.1 :: k.2)
      fun k l same => Prod.ext (cons.inj same).1 (cons.inj same).2
    refine nodup_cons.mpr ⟨by simp, ?_⟩
    rw [map_map] at longer ⊢
    exact longer
  · rintro (_ | ⟨step, way⟩) b
    · simp [follow, eq_comm]
    · simpa [follow] using exact (step, way) b
  · rw [h a, map_cons, map_map]
    exact listed.cons a

end

/-! ## Occurrences -/

/-- What a part is to the expression or statement that it stands in. -/
inductive Role where
  | index | left | right | operand | cond | thenPart | elsePart | value | args
  | update | init | body
  deriving DecidableEq

def Role.all : List Role :=
  [index, left, right, operand, cond, thenPart, elsePart, value, args, update, init, body]

theorem Role.all_once : EachOnce some Role.all :=
  ⟨Role.all.map fun role => (role, role), by decide, fun k a => by cases k <;> cases a <;> decide, .rfl⟩

/-- The parts of an expression in a role. -/
def Expr.partsIn : Expr → Role → List Expr
  | .element _ index, .index | .assign (.element _ index) _ _, .index
  | .step (.element _ index) _ _, .index => [index]
  | .atomic _ slot _, .index => slot.index.toList
  | .binary _ lhs _, .left => [lhs]
  | .binary _ _ rhs, .right => [rhs]
  | .unary _ operand, .operand => [operand]
  | .conditional cond _ _, .cond => [cond]
  | .conditional _ value _, .thenPart | .conditional _ _ value, .elsePart => [value]
  | .cast _ value _, .value | .assign _ _ value, .value => [value]
  | .call _ args, .args | .atomic _ _ args, .args | .builtin _ args, .args => args
  | _, _ => []

/-- The expressions that a statement holds itself in a role. -/
def Stmt.exprsIn : Stmt → Role → List Expr
  | .declare _ _ value, .value | .ret value, .value => value.toList
  | .expr e, .value => [e]
  | .branch cond _ _, .cond | .whileLoop cond _, .cond | .doWhile _ cond, .cond => [cond]
  | .forLoop _ cond _ _, .cond => cond.toList
  | .forLoop _ _ update _, .update => update
  | _, _ => []

/-- The statements directly inside a statement in a role. -/
def Stmt.partsIn : Stmt → Role → List Stmt
  | .branch _ thenBody _, .thenPart => thenBody
  | .branch _ _ elseBody, .elsePart => elseBody
  | .forLoop init _ _ _, .init => init
  | .whileLoop _ body, .body | .doWhile body _, .body | .forLoop _ _ _ body, .body
  | .block body, .body => body
  | _, _ => []

theorem Expr.parts_eq (e : Expr) : e.parts = Role.all.flatMap e.partsIn := by
  cases e with
  | assign target | step target => cases target <;> rfl
  | _ => simp [Expr.parts, Role.all, Expr.partsIn]

theorem Stmt.ownExprs_eq (s : Stmt) : s.ownExprs = Role.all.flatMap s.exprsIn := by
  cases s <;> simp [Stmt.ownExprs, Role.all, Stmt.exprsIn]

theorem Stmt.parts_eq (s : Stmt) : s.parts = Role.all.flatMap s.partsIn := by
  cases s <;> simp [Stmt.parts, Role.all, Stmt.partsIn]

/-- The way to a statement, which of its expressions it is, and the way into this expression. -/
abbrev Occurrence := List (Role × Nat) × (Role × Nat) × List (Role × Nat)

/-- The expression at an occurrence in a body, which is seen as the block that it makes. -/
def Stmt.node? (body : List Stmt) (o : Occurrence) : Option Expr :=
  (follow Stmt.partsIn (.block body) o.1).bind fun s =>
    (s.exprsIn o.2.1.1)[o.2.1.2]?.bind (follow Expr.partsIn · o.2.2)

theorem Stmt.numberedNodes_once (body : List Stmt) :
    EachOnce (Stmt.node? body) (Stmt.numberedNodes body) := by
  have stmts := Stmt.flatten_listed.eachOnce Role.all_once Stmt.parts_eq (.block body)
  have own : ∀ s : Stmt, EachOnce (fun k : Role × Nat => (s.exprsIn k.1)[k.2]?) s.ownExprs :=
    fun s => s.ownExprs_eq ▸ Role.all_once.flatMap fun role _ => .getElem? (s.exprsIn role)
  rw [Stmt.numberedNodes_eq]
  exact stmts.flatMap fun s _ => (own s).flatMap fun e _ =>
    Expr.nodes_listed.eachOnce Role.all_once Expr.parts_eq e

/-- Both traversals visit the expression at each occurrence exactly once, so that they agree up to
order. Calls and doubles are looked for in one of them, written fields and lengths in the other, and
the other one would do as well. -/
theorem traversals_agree (body : List Stmt) (m : Method) (methods : List Method) (d : Descriptor) :
    EachOnce (Stmt.node? body) (Stmt.allNodes body) ∧
    EachOnce (Stmt.node? body) (Stmt.numberedNodes body) ∧
    (Stmt.allNodes body).Perm (Stmt.numberedNodes body) ∧
    (m.callSites.map CallSite.callee).Perm ((Stmt.allNodes m.body).filterMap Expr.callee?) ∧
    (Target.methodUsesDouble m = true ↔
      m.ret = some .double ∨ (∃ p ∈ m.params, p.type = .double) ∨
        (∃ s ∈ Stmt.flattenAll m.body, Target.declaresDouble s = true) ∨
          ∃ e ∈ Stmt.allNodes m.body, Target.makesDouble e = true) ∧
    (Method.writtenFields methods).Perm
      (methods.flatMap fun m => (Stmt.numberedNodes m.body).filterMap Expr.writtenField?) ∧
    d.lengthUses.Perm
      (d.methods.flatMap fun m => (Stmt.numberedNodes m.body).filterMap Expr.lengthOf?) := by
  have moved := fun body => (Stmt.numberedNodes_perm body).symm
  have single := Stmt.numberedNodes_once body
  refine ⟨?_, single, moved body, m.callees_perm, ?_, ?_, ?_⟩
  · obtain ⟨found, distinct, exact, listed⟩ := single
    exact ⟨found, distinct, exact, listed.trans (moved body).symm⟩
  · have made : (∃ e ∈ Stmt.allNodes m.body, Target.makesDouble e = true) ↔
        ∃ s ∈ Stmt.flattenAll m.body, s.ownNodes.any Target.makesDouble = true := by
      rw [← any_eq_true, (moved m.body).any_eq, Stmt.numberedNodes_eq, any_flatMap, any_eq_true]
    rw [made]
    simp [Target.methodUsesDouble, Stmt.ownNodes, and_or_left, exists_or, or_assoc]
  · exact Perm.flatMap_left _ fun m _ => (moved m.body).filterMap _
  · exact Perm.flatMap_left _ fun m _ => (moved m.body).filterMap _

end GridKernel
