import GridKernel.Kernel.CallGraph
import Mathlib.Data.List.Nodup
import Mathlib.Logic.Relation

/-!
# Depth-first walks

`Walk` says in which order a depth-first walk reaches names: a new name is reached, then everything
below it, and only then the name after it. The stack machines `reach` and `leaving` carry such
walks out if they are given enough steps, and each name costs them as many steps as it has
successors.
-/

namespace GridKernel.CallGraph

open Relation List

/-- One name leads to another. -/
def Leads (next : String → List String) (a b : String) : Prop := b ∈ next a

/-- A walk that takes up the names of a stack in turn: what it has reached before and after. -/
inductive Walk (next : String → List String) : List String → List String → List String → Prop
  | done (reached : List String) : Walk next [] reached reached
  | again {name : String} {stack reached after : List String} (seen : name ∈ reached)
      (rest : Walk next stack reached after) : Walk next (name :: stack) reached after
  | enter {name : String} {stack reached between after : List String} (new : name ∉ reached)
      (below : Walk next (next name) (reached ++ [name]) between)
      (rest : Walk next stack between after) : Walk next (name :: stack) reached after

namespace Walk

variable {next : String → List String} {reached after : List String}

/-- A walk over two stacks is a walk over the first and then over the second. -/
theorem split (h : Walk next (stack ++ more) reached after) :
    ∃ between, Walk next stack reached between ∧ Walk next more between after := by
  induction stack generalizing reached with
  | nil => exact ⟨reached, .done reached, h⟩
  | cons name stack ih =>
    cases h with
    | again seen rest =>
      obtain ⟨between, first, second⟩ := ih rest
      exact ⟨between, .again seen first, second⟩
    | enter new below rest =>
      obtain ⟨between, first, second⟩ := ih rest
      exact ⟨between, .enter new below first, second⟩

/-- What is reached stays reached, in its place. -/
theorem keeps (h : Walk next stack reached after) : reached <+: after := by
  induction h with
  | done reached => exact prefix_rfl
  | again seen rest ih => exact ih
  | enter new below rest first second =>
    exact (prefix_append _ _).trans (first.trans second)

theorem first (h : Walk next (name :: stack) [] after) : after.head? = some name := by
  cases h with
  | again seen rest => cases seen
  | enter new below rest =>
    obtain ⟨others, same⟩ := below.keeps.trans rest.keeps
    rw [← same]
    rfl

/-- Nothing is reached twice. -/
theorem nodup (h : Walk next stack reached after) (distinct : reached.Nodup) : after.Nodup := by
  induction h with
  | done reached => exact distinct
  | again seen rest ih => exact ih distinct
  | enter new below rest first second =>
    apply second
    apply first
    rw [nodup_append]
    exact ⟨distinct, nodup_singleton _, fun a member b single => by
      rintro rfl
      exact new (mem_singleton.mp single ▸ member)⟩

theorem takes (h : Walk next stack reached after) (member : x ∈ stack) : x ∈ after := by
  induction h with
  | done reached => cases member
  | again seen rest ih =>
    cases member with
    | head => exact rest.keeps.subset seen
    | tail _ member => exact ih member
  | enter new below rest first second =>
    cases member with
    | head => exact rest.keeps.subset (below.keeps.subset (by simp))
    | tail _ member => exact second member

/-- Everything that a new name leads to is reached with it. -/
theorem closed (h : Walk next stack reached after) (found : x ∈ after) (new : x ∉ reached)
    (leads : Leads next x y) : y ∈ after := by
  induction h with
  | done reached => exact absurd found new
  | again seen rest ih => exact ih found new
  | @enter name stack reached between after fresh below rest first second =>
    by_cases early : x ∈ between
    · apply rest.keeps.subset
      by_cases same : x = name
      · subst same
        exact below.takes leads
      · exact first early (by simp [new, same])
    · exact second found early

/-- Only what the stack leads to is reached. -/
theorem sound (h : Walk next stack reached after) (found : x ∈ after) :
    x ∈ reached ∨ ∃ s ∈ stack, ReflTransGen (Leads next) s x := by
  induction h with
  | done reached => exact .inl found
  | again seen rest ih =>
    refine (ih found).imp_right ?_
    rintro ⟨s, member, path⟩
    exact ⟨s, mem_cons_of_mem _ member, path⟩
  | @enter name stack reached between after new below rest first second =>
    rcases second found with early | ⟨s, member, path⟩
    · rcases first early with known | ⟨s, member, path⟩
      · rcases mem_append.mp known with known | same
        · exact .inl known
        · exact .inr ⟨name, mem_cons_self, mem_singleton.mp same ▸ .refl⟩
      · exact .inr ⟨name, mem_cons_self, .head member path⟩
    · exact .inr ⟨s, mem_cons_of_mem _ member, path⟩

/-- A walk from the start reaches exactly what the stack leads to. -/
theorem mem_iff (h : Walk next stack [] after) :
    x ∈ after ↔ ∃ s ∈ stack, ReflTransGen (Leads next) s x := by
  constructor
  · intro found
    exact (h.sound found).resolve_left not_mem_nil
  · rintro ⟨s, member, path⟩
    induction path with
    | refl => exact h.takes member
    | tail _ last ih => exact h.closed ih not_mem_nil last

end Walk

/-! ## Steps -/

/-- What the names that are not reached yet will cost. -/
def owed (cost : String → Nat) (reached : List String) : List String → Nat
  | [] => 0
  | name :: rest => (if name ∈ reached then 0 else cost name) + owed cost reached rest

section

variable {name : String}

theorem owed_append_le (cost : String → Nat) (names reached name) :
    owed cost (reached ++ [name]) names ≤ owed cost reached names := by
  induction names with
  | nil => exact Nat.le_refl 0
  | cons head rest ih =>
    by_cases seen : head ∈ reached
    · simpa [owed, seen] using ih
    · simp only [owed, seen, if_false]
      split <;> omega

/-- A name that is reached has been paid for. -/
theorem owed_append (cost : String → Nat) (member : name ∈ names) (new : name ∉ reached) :
    owed cost (reached ++ [name]) names + cost name ≤ owed cost reached names := by
  induction names with
  | nil => cases member
  | cons head rest ih =>
    by_cases same : head = name
    · subst same
      have others := owed_append_le cost rest reached head
      simp [owed, new]
      omega
    · have inside : name ∈ rest := by simpa [Ne.symm same] using member
      have paid := ih inside
      simp [owed, same]
      omega

theorem owed_mono (cheaper : ∀ name, cost name ≤ cost' name) (reached names) :
    owed cost reached names ≤ owed cost' reached names := by
  induction names with
  | nil => exact Nat.le_refl 0
  | cons head rest ih =>
    have first := cheaper head
    simp only [owed]
    split <;> omega

end

section

variable {next : String → List String}

/-- With enough steps the machine carries out a walk. Names without successors need not be counted. -/
theorem reach_walk (known : ∀ name, name ∉ names → next name = []) (n stack reached)
    (enough : stack.length + owed (fun name => (next name).length) reached names ≤ n) :
    Walk next stack reached (reach next n stack reached) := by
  induction n generalizing stack reached with
  | zero =>
    have empty : stack = [] := eq_nil_of_length_eq_zero (by omega)
    subst empty
    exact .done reached
  | succ n ih =>
    cases stack with
    | nil => exact .done reached
    | cons name stack =>
      rw [length_cons] at enough
      rw [reach]
      by_cases seen : name ∈ reached
      · rw [if_pos (contains_iff_mem.mpr seen)]
        exact .again seen (ih stack reached (by omega))
      · rw [if_neg (by simpa using seen)]
        have paid : (next name).length
            + owed (fun name => (next name).length) (reached ++ [name]) names
            ≤ owed (fun name => (next name).length) reached names := by
          by_cases member : name ∈ names
          · have counted := owed_append (fun name => (next name).length) member seen
            omega
          · rw [known name member, length_nil, Nat.zero_add]
            exact owed_append_le _ names reached name
        have walked := ih (next name ++ stack) (reached ++ [name])
          (by rw [length_append]; omega)
        obtain ⟨between, below, rest⟩ := walked.split
        exact .enter seen below rest

/-- The name that a stage of a walk is about to enter. -/
def Visit.entering? : Visit → Option String
  | .enter name => some name
  | .leave _ => none

/-- With enough steps the machine leaves what it has to leave and everything that the walk newly
reaches. -/
theorem mem_leaving (inside : ∀ a ∈ names, ∀ b ∈ next a, b ∈ names) (n stack entered left)
    (declared : ∀ name, .enter name ∈ stack → name ∈ names)
    (enough : stack.length + owed (fun name => (next name).length + 1) entered names ≤ n) :
    ∃ after, Walk next (stack.filterMap Visit.entering?) entered after ∧
      ∀ x, x ∈ leaving next n stack entered left ↔
        x ∈ left ∨ .leave x ∈ stack ∨ (x ∈ after ∧ x ∉ entered) := by
  induction n generalizing stack entered left with
  | zero =>
    have empty : stack = [] := eq_nil_of_length_eq_zero (by omega)
    subst empty
    exact ⟨entered, .done entered, fun x => by simp [leaving]⟩
  | succ n ih =>
    match stack with
    | [] => exact ⟨entered, .done entered, fun x => by simp [leaving]⟩
    | .leave name :: stack =>
      rw [length_cons] at enough
      obtain ⟨after, walked, exactly⟩ := ih stack entered (left ++ [name])
        (fun a member => declared a (mem_cons_of_mem _ member))
        (by omega)
      refine ⟨after, walked, fun x => ?_⟩
      rw [leaving, exactly]
      simp only [mem_append, mem_cons, not_mem_nil, or_false, Visit.leave.injEq]
      tauto
    | .enter name :: stack =>
      rw [length_cons] at enough
      have others : ∀ a, .enter a ∈ stack → a ∈ names :=
        fun a member => declared a (mem_cons_of_mem _ member)
      rw [leaving]
      by_cases seen : name ∈ entered
      · obtain ⟨after, walked, exactly⟩ := ih stack entered left others (by omega)
        refine ⟨after, Walk.again seen walked, fun x => ?_⟩
        rw [if_pos (contains_iff_mem.mpr seen), exactly]
        simp
      · have member := declared name mem_cons_self
        have paid := owed_append (fun name => (next name).length + 1) member seen
        obtain ⟨after, walked, exactly⟩ := ih
          ((next name).map .enter ++ .leave name :: stack) (entered ++ [name]) left
          (fun a inStack => by
            simp only [mem_append, mem_map, Visit.enter.injEq, exists_eq_right,
              mem_cons, reduceCtorEq, false_or] at inStack
            exact inStack.elim (inside name member a) (others a))
          (by
            rw [length_append, length_map, length_cons]
            omega)
        have entering : ((next name).map Visit.enter ++ .leave name :: stack).filterMap
            Visit.entering? = next name ++ stack.filterMap Visit.entering? := by
          rw [filterMap_append, filterMap_map, filterMap_cons_none rfl]
          simp [Visit.entering?, Function.comp_def]
        rw [entering] at walked
        obtain ⟨between, below, rest⟩ := walked.split
        have reached : name ∈ after := walked.keeps.subset (by simp)
        refine ⟨after, Walk.enter seen below rest, fun x => ?_⟩
        rw [if_neg (by simpa using seen), exactly]
        by_cases same : x = name
        · subst same
          simp [reached, seen]
        · simp [same]

end

end GridKernel.CallGraph
