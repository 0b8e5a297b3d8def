import GridKernel.Lang.Traverse

/-!
# Parts of parts

Expressions and statements are listed outermost first: each in front of what its direct parts list.
What passes on to direct parts therefore holds of all that is listed.
-/

namespace GridKernel

open List

/-- Each thing is listed in front of what its direct parts list. -/
def Listed {α : Type} (list parts : α → List α) : Prop := ∀ a, list a = a :: (parts a).flatMap list

namespace Listed

variable {α : Type}

theorem length_lt (h : Listed list parts) (part : b ∈ parts a) :
    (list b).length < (list a).length := by
  have inside : (list b).Sublist ((parts a).flatMap list) :=
    sublist_flatten_of_mem (mem_map_of_mem part)
  rw [h a, length_cons]
  exact Nat.lt_succ_of_le inside.length_le

/-- By induction on the length of the list. -/
theorem induct (h : Listed list parts) {P : α → Prop} (up : ∀ a, (∀ b ∈ parts a, P b) → P a)
    (a : α) : P a := by
  induction size : (list a).length using Nat.strongRecOn generalizing a with
  | _ n ih => exact up a fun b part => ih _ (size ▸ h.length_lt part) b rfl

theorem forall_mem (h : Listed list parts) {P : α → Prop} (down : ∀ a, P a → ∀ b ∈ parts a, P b) :
    P a → ∀ b ∈ list a, P b := by
  refine h.induct (P := fun a => P a → ∀ b ∈ list a, P b) (fun a ih holds => ?_) a
  rw [h a]
  refine forall_mem_cons.mpr ⟨holds, forall_mem_flatMap.mpr fun part inside => ?_⟩
  exact ih part inside (down a holds part inside)

theorem self (h : Listed list parts) (a : α) : a ∈ list a := by
  rw [h a]
  exact mem_cons_self

theorem part (h : Listed list parts) (part : b ∈ parts a) : list b ⊆ list a := by
  intro c member
  rw [h a]
  exact mem_cons_of_mem a (mem_flatMap.mpr ⟨b, part, member⟩)

/-- What comes from a direct part wherever it does not start has a start among all that is listed. -/
theorem exists_mem (h : Listed list parts) {P Q : α → Prop}
    (down : ∀ a, P a → Q a ∨ ∃ b ∈ parts a, P b) : P a → ∃ b ∈ list a, Q b := by
  refine h.induct (P := fun a => P a → ∃ b ∈ list a, Q b) (fun a ih holds => ?_) a
  rcases down a holds with here | ⟨b, part, below⟩
  · exact ⟨a, h.self a, here⟩
  · obtain ⟨c, inside, found⟩ := ih b part below
    exact ⟨c, h.part part inside, found⟩

theorem nested (h : Listed list parts) (member : b ∈ list a) : list b ⊆ list a :=
  h.forall_mem (P := fun c => list c ⊆ list a)
    (fun _ inside _ part => List.Subset.trans (h.part part) inside) (List.Subset.refl _) b member

end Listed

/-! ## Expressions -/

theorem Expr.listNodes_eq (es) : Expr.listNodes es = es.flatMap Expr.nodes := by
  induction es with
  | nil => rfl
  | cons e rest ih => rw [Expr.listNodes, ih, flatMap_cons]

theorem Expr.optionNodes_eq (o) : Expr.optionNodes o = o.toList.flatMap Expr.nodes := by
  cases o <;> simp [Expr.optionNodes]

/-- The index of a place. -/
def Place.parts : Place Expr → List Expr
  | .element _ index => [index]
  | .var _ | .field _ => []

/-- The expressions directly inside an expression. -/
def Expr.parts : Expr → List Expr
  | .literal _ | .var _ | .field _ | .length _ => []
  | .element _ e | .unary _ e | .cast _ e _ => [e]
  | .binary _ lhs rhs => [lhs, rhs]
  | .conditional cond thenValue elseValue => [cond, thenValue, elseValue]
  | .assign target _ value => target.parts ++ [value]
  | .step target _ _ => target.parts
  | .call _ args | .builtin _ args => args
  | .atomic _ slot args => slot.index.toList ++ args

theorem Place.nodes_eq (p : Place Expr) : p.nodes = p.parts.flatMap Expr.nodes := by
  cases p <;> simp [Place.nodes, Place.parts]

theorem SlotRef.nodes_eq (slot : SlotRef Expr) :
    slot.nodes = slot.index.toList.flatMap Expr.nodes := by
  obtain ⟨field, index⟩ := slot
  rw [SlotRef.nodes, Expr.optionNodes_eq]

theorem Expr.nodes_listed : Listed Expr.nodes Expr.parts := by
  intro e
  cases e <;> simp [Expr.nodes, Expr.parts, Expr.listNodes_eq, Place.nodes_eq, SlotRef.nodes_eq]

theorem Expr.parts_induct {motive : Expr → Prop} (step : ∀ e, (∀ b ∈ e.parts, motive b) → motive e)
    (e) : motive e :=
  Expr.nodes_listed.induct step e

theorem Expr.anyEffects_eq (es) : Expr.anyEffects es = es.any Expr.hasEffects := by
  induction es with
  | nil => rfl
  | cons e rest ih => rw [Expr.anyEffects, ih, any_cons]

theorem Expr.hasEffects_parts (e : Expr) (plain : e.hasEffects = false) :
    ∀ part ∈ e.parts, part.hasEffects = false := by
  cases e <;> simp_all [Expr.hasEffects, Expr.parts, Expr.anyEffects_eq]

/-! ## Statements -/

theorem Stmt.flattenAll_eq (body) : Stmt.flattenAll body = body.flatMap Stmt.flatten := by
  induction body with
  | nil => rfl
  | cons s rest ih => rw [Stmt.flattenAll, ih, flatMap_cons]

/-- The statements directly inside a statement. -/
def Stmt.parts : Stmt → List Stmt
  | .branch _ thenBody elseBody => thenBody ++ elseBody
  | .whileLoop _ body | .doWhile body _ | .block body => body
  | .forLoop init _ _ body => init ++ body
  | .declare _ _ _ | .expr _ | .breakLoop | .continueLoop | .ret _ => []

theorem Stmt.flatten_listed : Listed Stmt.flatten Stmt.parts := by
  intro s
  cases s <;> simp [Stmt.flatten, Stmt.parts, Stmt.flattenAll_eq]

/-- What is nested in a nested statement is nested in the whole. -/
theorem Stmt.flattenAll_nested (inner : s ∈ Stmt.flattenAll body) (found : s' ∈ s.flatten) :
    s' ∈ Stmt.flattenAll body := by
  rw [Stmt.flattenAll_eq] at inner ⊢
  obtain ⟨first, member, inside⟩ := mem_flatMap.mp inner
  exact mem_flatMap.mpr ⟨first, member, Stmt.flatten_listed.nested inside found⟩

end GridKernel
