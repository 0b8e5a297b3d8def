import GridKernel.Proofs.Kernel.Build
import GridKernel.Proofs.Kernel.Walk
import GridKernel.Proofs.Lang.Traversals
import Mathlib.Data.Finset.Max
import Mathlib.Data.List.Pairwise

/-!
# The order of methods

`linearize` accepts a kernel exactly if its entry point is declared, every call names a declared
method, and no method that the entry point reaches calls itself, directly or through others. The
order it gives is that of a depth-first walk along the call sites. Where it finds a cycle it reports
one strongly connected component of the calls.
-/

namespace GridKernel

open Relation List

/-! ## Call sites -/

/-- The method's body holds a call of a method of this name. -/
def Method.Calls (m : Method) (name : String) : Prop :=
  ∃ args, Expr.call name args ∈ Stmt.allNodes m.body

/-- The names that a statement itself calls, in order. -/
def Stmt.callees (s : Stmt) : List String := s.ownNodes.filterMap Expr.callee?

theorem Expr.callee?_eq_some {e : Expr} {name : String} :
    e.callee? = some name ↔ ∃ args, e = .call name args := by
  cases e <;> simp [Expr.callee?]

namespace Method

variable {m : Method}

theorem callSites_eq (m : Method) :
    m.callSites = (Stmt.numbered m.body).flatMap fun numbered =>
      numbered.1.callees.map fun callee => ⟨callee, numbered.2⟩ := by
  unfold callSites Stmt.callees Stmt.ownNodes
  refine congrArg (fun f => List.flatMap f _) (funext fun numbered => ?_)
  rw [map_filterMap]

theorem mem_callSites :
    site ∈ m.callSites ↔
      ∃ s, (s, site.position) ∈ Stmt.numbered m.body ∧ site.callee ∈ s.callees := by
  obtain ⟨callee, position⟩ := site
  rw [callSites_eq, mem_flatMap]
  constructor
  · rintro ⟨⟨s, p⟩, member, listed⟩
    obtain ⟨name, calls, same⟩ := mem_map.mp listed
    cases same
    exact ⟨s, member, calls⟩
  · rintro ⟨s, member, calls⟩
    exact ⟨(s, position), member, mem_map.mpr ⟨callee, calls, rfl⟩⟩

/-- Every call in the body has a call site of its own. -/
theorem callees_perm (m : Method) :
    (m.callSites.map CallSite.callee).Perm ((Stmt.allNodes m.body).filterMap Expr.callee?) := by
  refine Perm.trans (.of_eq ?_) ((Stmt.numberedNodes_perm m.body).filterMap _)
  rw [callSites_eq, map_flatMap, Stmt.numberedNodes, filterMap_flatMap]
  simp [Stmt.callees, Function.comp_def]

theorem calls_iff {name : String} : m.Calls name ↔ name ∈ m.callSites.map CallSite.callee := by
  rw [m.callees_perm.mem_iff, mem_filterMap]
  simp [Calls, Expr.callee?_eq_some]

/-- Call sites stand in the order of their statements. -/
theorem callSites_sorted (m : Method) :
    m.callSites.Pairwise fun a b => a.position ≤ b.position := by
  rw [callSites_eq, pairwise_flatMap]
  constructor
  · intro numbered _
    exact pairwise_map.mpr (pairwise_of_forall fun _ _ => Nat.le_refl _)
  · have increasing : ((Stmt.numbered m.body).map Prod.snd).Pairwise (· < ·) := by
      unfold Stmt.numbered
      rw [zipIdx_map_snd]
      exact pairwise_lt_range'
    refine (pairwise_map.mp increasing).imp ?_
    intro a b less x first y second
    obtain ⟨_, -, rfl⟩ := mem_map.mp first
    obtain ⟨_, -, rfl⟩ := mem_map.mp second
    exact Nat.le_of_lt less

/-- The first call site of its kind is in the earliest statement that has one. -/
theorem position_of_find? {site : CallSite} {p : String → Bool}
    (found : m.callSites.find? (fun s => p s.callee) = some site) :
    (∃ s, (s, site.position) ∈ Stmt.numbered m.body ∧ ∃ name ∈ s.callees, p name = true) ∧
      ∀ s position, (s, position) ∈ Stmt.numbered m.body → (∃ name ∈ s.callees, p name = true) →
        site.position ≤ position := by
  obtain ⟨holds, before, after, cut, none⟩ := find?_eq_some_iff_append.mp found
  have sorted := m.callSites_sorted
  rw [cut, pairwise_append, pairwise_cons] at sorted
  refine ⟨?_, ?_⟩
  · obtain ⟨s, numbered, called⟩ := mem_callSites.mp (mem_of_find?_eq_some found)
    exact ⟨s, numbered, site.callee, called, holds⟩
  · rintro s position numbered ⟨name, called, chosen⟩
    have member : (⟨name, position⟩ : CallSite) ∈ m.callSites :=
      mem_callSites.mpr ⟨s, numbered, called⟩
    rw [cut, mem_append, mem_cons] at member
    rcases member with early | same | late
    · have missed := none _ early
      simp [chosen] at missed
    · exact Nat.le_of_eq (congrArg CallSite.position same).symm
    · exact sorted.2.1.1 _ late

end Method

namespace CallGraph

variable {methods : List Method} {entry a b : String}

/-- The first of these methods calls the second. -/
def Calls (methods : List Method) (a b : String) : Prop := ∃ m ∈ methods, m.name = a ∧ m.Calls b

def Declared (methods : List Method) (name : String) : Prop := ∃ m ∈ methods, m.name = name

/-- Every call in every method names a declared method. -/
def Resolved (methods : List Method) : Prop :=
  ∀ m ∈ methods, ∀ name, m.Calls name → Declared methods name

theorem Resolved.declared (h : Resolved methods) (calls : Calls methods a b) :
    Declared methods b := by
  obtain ⟨m, member, -, called⟩ := calls
  exact h m member b called

theorem find?_isSome : (find? methods a).isSome = true ↔ Declared methods a := by
  simp [find?, Declared]

theorem find?_sound (found : find? methods a = some m) : m ∈ methods ∧ m.name = a := by
  have named := find?_some found
  exact ⟨mem_reverse.mp (mem_of_find?_eq_some found), eq_of_beq named⟩

theorem find?_eq_some (distinct : (methods.map Method.name).Nodup) :
    find? methods a = some m ↔ m ∈ methods ∧ m.name = a := by
  constructor
  · exact find?_sound
  · rintro ⟨member, named⟩
    obtain ⟨m', found⟩ := Option.isSome_iff_exists.mp (find?_isSome.mpr ⟨m, member, named⟩)
    obtain ⟨member', named'⟩ := find?_sound found
    rw [found, inj_on_of_nodup_map distinct member' member (named'.trans named.symm)]

theorem callees_of_member (distinct : (methods.map Method.name).Nodup) (member : m ∈ methods) :
    callees methods m.name = m.callSites.map CallSite.callee := by
  rw [callees, (find?_eq_some distinct).mpr ⟨member, rfl⟩]
  rfl

theorem callees_of_undeclared (undeclared : a ∉ methods.map Method.name) :
    callees methods a = [] := by
  have missing : find? methods a = none := by
    rw [← Option.isNone_iff_eq_none, ← Option.not_isSome, Bool.not_eq_true', ← Bool.not_eq_true,
      find?_isSome]
    rintro ⟨m, member, rfl⟩
    exact undeclared (mem_map_of_mem member)
  rw [callees, missing]
  rfl

section

variable (distinct : (methods.map Method.name).Nodup)
include distinct

theorem leads_eq :
    Leads (callees methods) = Calls methods := by
  funext a b
  refine propext ⟨?_, ?_⟩
  · intro listed
    by_cases declared : a ∈ methods.map Method.name
    · obtain ⟨m, member, rfl⟩ := mem_map.mp declared
      rw [Leads, callees_of_member distinct member] at listed
      exact ⟨m, member, rfl, Method.calls_iff.mpr listed⟩
    · rw [Leads, callees_of_undeclared declared] at listed
      cases listed
  · rintro ⟨m, member, rfl, calls⟩
    rw [Leads, callees_of_member distinct member]
    exact Method.calls_iff.mp calls

/-! ## Enough steps -/

/-- A walk that enters and leaves every method has steps to spare. -/
theorem steps_eq :
    1 + owed (fun name => (callees methods name).length + 1) [] (methods.map Method.name) =
      steps methods := by
  have counted : ∀ part : List Method, (∀ m ∈ part, m ∈ methods) →
      owed (fun name => (callees methods name).length + 1) [] (part.map Method.name) =
        part.foldr (fun m n => m.callSites.length + 1 + n) 0 := by
    intro part inside
    induction part with
    | nil => rfl
    | cons m rest ih =>
      have first := callees_of_member distinct (inside m mem_cons_self)
      have others := ih fun m' member => inside m' (mem_cons_of_mem _ member)
      simp [owed, first, others]
  rw [counted methods fun _ member => member, steps]

theorem walk_of_steps (stack) (enough : stack.length + steps methods ≤ n + 1) :
    Walk (callees methods) stack [] (reach (callees methods) n stack []) := by
  refine reach_walk (fun _ => callees_of_undeclared) n stack [] ?_
  have cheaper := owed_mono (fun name => Nat.le_succ (callees methods name).length) []
    (methods.map Method.name)
  have total := steps_eq distinct
  simp only [Nat.succ_eq_add_one] at cheaper
  omega

/-- The order in which methods are reached. -/
theorem order_walk (entry) :
    Walk (callees methods) [entry] [] (reach (callees methods) (steps methods) [entry] []) :=
  walk_of_steps distinct [entry] (Nat.le_of_eq (Nat.add_comm 1 _))

theorem mem_order :
    a ∈ reach (callees methods) (steps methods) [entry] [] ↔
      ReflTransGen (Calls methods) entry a := by
  rw [(order_walk distinct entry).mem_iff, leads_eq distinct]
  simp

theorem mem_reachedFrom :
    b ∈ reachedFrom methods a ↔ TransGen (Calls methods) a b := by
  have walked := walk_of_steps distinct (callees methods a)
    (n := steps methods + (callees methods a).length) (by omega)
  rw [reachedFrom, walked.mem_iff, leads_eq distinct, TransGen.head'_iff, ← leads_eq distinct]
  rfl

theorem isCyclic_iff :
    isCyclic methods a = true ↔ TransGen (Calls methods) a a := by
  rw [isCyclic, contains_iff_mem, mem_reachedFrom distinct]

end

/-- Two methods that reach each other. -/
def Mutual (methods : List Method) (a b : String) : Prop :=
  ReflTransGen (Calls methods) a b ∧ ReflTransGen (Calls methods) b a

namespace Mutual

theorem trans (h : Mutual methods a b) (h' : Mutual methods b c) :
    Mutual methods a c := ⟨h.1.trans h'.1, h'.2.trans h.2⟩

theorem cyclic (h : Mutual methods a b) (cycle : TransGen (Calls methods) a a) :
    TransGen (Calls methods) b b :=
  (cycle.trans_right h.2).trans_left h.1

end Mutual

theorem mem_component (distinct : (methods.map Method.name).Nodup)
    (reachable : ReflTransGen (Calls methods) entry a) :
    b ∈ component methods (reach (callees methods) (steps methods) [entry] []) a ↔
      Mutual methods a b := by
  simp only [component, mem_filter, mem_order distinct, Bool.or_eq_true, Bool.and_eq_true,
    beq_iff_eq, contains_iff_mem, mem_reachedFrom distinct]
  constructor
  · rintro ⟨-, rfl | ⟨there, back⟩⟩
    · exact ⟨.refl, .refl⟩
    · exact ⟨there.to_reflTransGen, back.to_reflTransGen⟩
  · rintro ⟨there, back⟩
    refine ⟨reachable.trans there, ?_⟩
    rcases reflTransGen_iff_eq_or_transGen.mp there with same | there'
    · exact .inl same
    · rcases reflTransGen_iff_eq_or_transGen.mp back with same | back'
      · exact .inl same.symm
      · exact .inr ⟨there', back'⟩

/-! ## Cycles -/

theorem length_eraseDups_le (l : List String) : l.eraseDups.length ≤ l.length := by
  induction size : l.length using Nat.strong_induction_on generalizing l with
  | _ n ih =>
    cases l with
    | nil => simp
    | cons a rest =>
      have kept := length_filter_le (fun b => !b == a) rest
      rw [length_cons] at size
      have shorter := ih (rest.filter fun b => !b == a).length (by omega) _ rfl
      rw [eraseDups_cons, length_cons]
      omega

/-- The successors in the order in which the search for cycles takes them. -/
theorem leads_backwards (distinct : (methods.map Method.name).Nodup) :
    Leads (fun name => (callees methods name).eraseDups.reverse) = Calls methods := by
  rw [← leads_eq distinct]
  funext a b
  simp [Leads]

variable (resolved : Resolved methods)

include resolved in
/-- Every method that is reached is left. -/
theorem mem_left (distinct : (methods.map Method.name).Nodup)
    (declared : Declared methods entry) :
    a ∈ leaving (fun name => (callees methods name).eraseDups.reverse) (2 * steps methods + 2)
      [.enter entry] [] [] ↔ ReflTransGen (Calls methods) entry a := by
  have inside : ∀ a ∈ methods.map Method.name,
      ∀ b ∈ (callees methods a).eraseDups.reverse, b ∈ methods.map Method.name := by
    intro a _ b listed
    have calls : Calls methods a b := by rwa [← leads_backwards distinct]
    exact mem_map.mpr (resolved.declared calls)
  have start : ∀ name, Visit.enter name ∈ [Visit.enter entry] → name ∈ methods.map Method.name := by
    intro name member
    cases mem_singleton.mp member
    exact mem_map.mpr declared
  have fewer : ∀ name, (callees methods name).eraseDups.reverse.length + 1 ≤
      (callees methods name).length + 1 := by
    intro name
    simpa using length_eraseDups_le (callees methods name)
  have cheaper := owed_mono fewer [] (methods.map Method.name)
  have total := steps_eq distinct
  obtain ⟨after, walked, exactly⟩ := mem_leaving inside (2 * steps methods + 2)
    [.enter entry] [] [] start (by simp only [length_singleton]; omega)
  rw [exactly]
  have reached := walked.mem_iff (x := a)
  rw [leads_backwards distinct] at reached
  simpa [Visit.entering?] using reached

include resolved in
theorem of_cycle?_eq_some (distinct : (methods.map Method.name).Nodup)
    (declared : Declared methods entry)
    (found : cycle? methods entry (reach (callees methods) (steps methods) [entry] []) = some
      members) :
    ∃ a, ReflTransGen (Calls methods) entry a ∧ TransGen (Calls methods) a a ∧
      members = component methods (reach (callees methods) (steps methods) [entry] []) a := by
  obtain ⟨i, -, chosen⟩ := exists_of_findSome?_eq_some found
  obtain ⟨a, there, chosen⟩ := Option.bind_eq_some_iff.mp chosen
  dsimp only at chosen
  split at chosen
  · rename_i complete
    rw [Bool.and_eq_true] at complete
    have left := mem_of_getElem? there
    rw [mem_left resolved distinct declared] at left
    exact ⟨a, left, (isCyclic_iff distinct).mp complete.1, (Option.some.inj chosen).symm⟩
  · cases chosen

include resolved in
/-- The member of a component that is left last completes it. -/
theorem cycle?_ne_none (distinct : (methods.map Method.name).Nodup)
    (declared : Declared methods entry) (reachable : ReflTransGen (Calls methods) entry a)
    (cyclic : TransGen (Calls methods) a a) :
    cycle? methods entry (reach (callees methods) (steps methods) [entry] []) ≠ none := by
  intro missed
  unfold cycle? at missed
  dsimp only at missed
  set order := reach (callees methods) (steps methods) [entry] [] with orderEq
  set left := leaving (fun name => (callees methods name).eraseDups.reverse)
    (2 * steps methods + 2) [.enter entry] [] [] with leftEq
  have leaves : ∀ {b}, Mutual methods a b → b ∈ left := by
    intro b partners
    rw [leftEq, mem_left resolved distinct declared]
    exact reachable.trans partners.1
  have self : Mutual methods a a := ⟨.refl, .refl⟩
  obtain ⟨last, member, latest⟩ := (component methods order a).toFinset.exists_max_image left.idxOf
    ⟨a, mem_toFinset.mpr ((mem_component distinct reachable).mpr self)⟩
  rw [mem_toFinset, mem_component distinct reachable] at member
  have bound : left.idxOf last < left.length := idxOf_lt_length_of_mem (leaves member)
  have skipped := findSome?_eq_none_iff.mp missed (left.idxOf last) (mem_range.mpr bound)
  rw [getElem?_idxOf (leaves member), Option.bind_some] at skipped
  have complete : isCyclic methods last = true ∧
      (component methods order last).all (left.take (left.idxOf last + 1)).contains = true := by
    refine ⟨(isCyclic_iff distinct).mpr (member.cyclic cyclic), ?_⟩
    rw [all_eq_true]
    intro b inside
    have partners : Mutual methods a b :=
      member.trans ((mem_component distinct (reachable.trans member.1)).mp inside)
    have early := latest b (mem_toFinset.mpr ((mem_component distinct reachable).mpr partners))
    have place : left.idxOf b < left.length := idxOf_lt_length_of_mem (leaves partners)
    rw [contains_iff_mem, mem_take_iff_getElem]
    exact ⟨left.idxOf b, by omega, getElem_idxOf place⟩
  rw [complete.1, complete.2] at skipped
  cases skipped

/-! ## Outcomes -/

theorem unresolved?_eq_none : unresolved? methods = none ↔ Resolved methods := by
  simp only [unresolved?, findSome?_eq_none_iff, Option.map_eq_none_iff, find?_eq_none,
    Option.isNone_iff_eq_none, ← Option.isSome_iff_ne_none, find?_isSome]
  constructor
  · intro found m member name calls
    obtain ⟨site, listed, rfl⟩ := mem_map.mp (Method.calls_iff.mp calls)
    exact found m member site listed
  · intro resolved m member site listed
    exact resolved m member site.callee (Method.calls_iff.mpr (mem_map_of_mem listed))

include resolved in
theorem declared_of_reachable (declared : Declared methods entry)
    (reachable : ReflTransGen (Calls methods) entry a) : Declared methods a := by
  cases reachable with
  | refl => exact declared
  | tail _ last => exact resolved.declared last

theorem names_filterMap {names : List String} (declared : ∀ a ∈ names, Declared methods a) :
    (names.filterMap (find? methods)).map Method.name = names := by
  induction names with
  | nil => rfl
  | cons a rest ih =>
    obtain ⟨m, found⟩ := Option.isSome_iff_exists.mp
      (find?_isSome.mpr (declared a mem_cons_self))
    have named := find?_some found
    rw [filterMap_cons_some found, map_cons,
      ih fun b member => declared b (mem_cons_of_mem _ member), eq_of_beq named]

/-- An order of methods: what the entry point reaches, each once, as a depth-first walk along the
call sites reaches it. -/
structure Ordered (methods : List Method) (entry : String) (order : List Method) : Prop where
  first : order.head?.map Method.name = some entry
  once : (order.map Method.name).Nodup
  exactly : ∀ m, m ∈ order ↔ m ∈ methods ∧ ReflTransGen (Calls methods) entry m.name
  walked : Walk (callees methods) [entry] [] (order.map Method.name)

/-- A report of recursion: one strongly connected component with a cycle, in the order in which its
members are reached, and the earliest statement of the first member that calls a member. -/
structure ReportsCycle (methods : List Method) (entry : String) (members : List String)
    (position : Option Nat) : Prop where
  component : ∃ a, ReflTransGen (Calls methods) entry a ∧ TransGen (Calls methods) a a ∧
    ∀ b, b ∈ members ↔ Mutual methods a b
  listed : ∃ order, Walk (callees methods) [entry] [] order ∧ members.Sublist order
  located : ∃ m ∈ methods, members.head? = some m.name ∧ ∃ p, position = some p ∧
    (∃ s, (s, p) ∈ Stmt.numbered m.body ∧ ∃ name ∈ s.callees, name ∈ members) ∧
      ∀ s q, (s, q) ∈ Stmt.numbered m.body → (∃ name ∈ s.callees, name ∈ members) → p ≤ q

section

variable (distinct : (methods.map Method.name).Nodup) (declared : Declared methods entry)

include resolved declared in
/-- With the entry point and all calls resolved, only a cycle stands in the way. -/
theorem linearize_of_resolved :
    linearize methods entry =
      match cycle? methods entry (reach (callees methods) (steps methods) [entry] []) with
      | some members =>
        .error (.recursion members do
          let first ← members.head?
          let m ← find? methods first
          (m.callSites.find? fun s => members.contains s.callee).map CallSite.position)
      | none => .ok ((reach (callees methods) (steps methods) [entry] []).filterMap
          (find? methods)) := by
  have known : (find? methods entry).isNone = false := by
    rw [← Option.not_isSome, find?_isSome.mpr declared]
    rfl
  rw [linearize, known, unresolved?_eq_none.mpr resolved]
  rfl

include resolved distinct declared in
theorem ordered_of_reached :
    Ordered methods entry
      ((reach (callees methods) (steps methods) [entry] []).filterMap (find? methods)) := by
  have walked := order_walk distinct entry
  have inside : ∀ a ∈ reach (callees methods) (steps methods) [entry] [], Declared methods a :=
    fun a member => declared_of_reachable resolved declared ((mem_order distinct).mp member)
  have names := names_filterMap inside
  refine ⟨?_, ?_, ?_, ?_⟩
  · rw [← head?_map, names]
    exact walked.first
  · rw [names]
    exact walked.nodup nodup_nil
  · intro m
    simp only [mem_filterMap, find?_eq_some distinct, mem_order distinct]
    constructor
    · rintro ⟨_, reachable, member, rfl⟩
      exact ⟨member, reachable⟩
    · rintro ⟨member, reachable⟩
      exact ⟨m.name, reachable, member, rfl⟩
  · rw [names]
    exact walked

omit resolved declared in
/-- Each member of a component with a cycle calls a member. -/
theorem member_calls_member {members : List String}
    (exactly : ∀ b, b ∈ members ↔ Mutual methods a b) (cycle : TransGen (Calls methods) a a)
    (member : b ∈ members) : ∃ c ∈ members, Calls methods b c := by
  have partners := (exactly b).mp member
  obtain ⟨c, calls, back⟩ := TransGen.head'_iff.mp (partners.cyclic cycle)
  exact ⟨c, (exactly c).mpr (partners.trans ⟨.single calls, back⟩), calls⟩

include resolved distinct declared in
theorem reportsCycle_of_found
    (found : cycle? methods entry (reach (callees methods) (steps methods) [entry] []) = some
      members) :
    ReportsCycle methods entry members (do
      let first ← members.head?
      let m ← find? methods first
      (m.callSites.find? fun s => members.contains s.callee).map CallSite.position) := by
  obtain ⟨a, reachable, cycle, same⟩ := of_cycle?_eq_some resolved distinct declared found
  have exactly : ∀ b, b ∈ members ↔ Mutual methods a b := by
    intro b
    rw [same]
    exact mem_component distinct reachable
  refine ⟨⟨a, reachable, cycle, exactly⟩, ⟨_, order_walk distinct entry, ?_⟩, ?_⟩
  · rw [same]
    exact filter_sublist
  · have self : a ∈ members := (exactly a).mpr ⟨.refl, .refl⟩
    cases members with
    | nil => cases self
    | cons first rest =>
      obtain ⟨c, inside, m, member, rfl, calls⟩ :=
        member_calls_member exactly cycle mem_cons_self
      obtain ⟨site, listed, rfl⟩ := mem_map.mp (Method.calls_iff.mp calls)
      have some_site : (m.callSites.find?
          fun s => (m.name :: rest).contains s.callee).isSome = true :=
        List.find?_isSome.mpr ⟨site, listed, List.contains_iff_mem.mpr inside⟩
      obtain ⟨site', earliest⟩ := Option.isSome_iff_exists.mp some_site
      obtain ⟨here, minimal⟩ := Method.position_of_find? earliest
      simp only [contains_iff_mem] at here minimal
      refine ⟨m, member, rfl, site'.position, ?_, here, minimal⟩
      have known := (find?_eq_some distinct).mpr ⟨member, rfl⟩
      simp only [head?_cons, Option.bind_eq_bind, Option.bind_some, known, earliest,
        Option.map_some]

end

/-- No method that the entry point reaches reaches itself. -/
def Acyclic (methods : List Method) (entry : String) : Prop :=
  ∀ a, ReflTransGen (Calls methods) entry a → ¬TransGen (Calls methods) a a

/-- How linearizing can end, and when. -/
inductive Ending (methods : List Method) (entry : String) :
    Except CallFault (List Method) → Prop
  | noEntry (undeclared : ¬Declared methods entry) :
      Ending methods entry (.error (.undeclaredEntry entry))
  | noCallee (declared : Declared methods entry) {m : Method} (member : m ∈ methods)
      {site : CallSite} (listed : site ∈ m.callSites) (missing : ¬Declared methods site.callee) :
      Ending methods entry (.error (.undeclaredCallee m.name site))
  | cycle (declared : Declared methods entry) (resolved : Resolved methods)
      {members : List String} {position : Option Nat}
      (report : ReportsCycle methods entry members position) :
      Ending methods entry (.error (.recursion members position))
  | order (declared : Declared methods entry) (resolved : Resolved methods)
      (acyclic : Acyclic methods entry) {order : List Method} (ordered : Ordered methods entry order) :
      Ending methods entry (.ok order)

theorem linearize_ending (distinct : (methods.map Method.name).Nodup) (entry) :
    Ending methods entry (linearize methods entry) := by
  by_cases declared : Declared methods entry
  · cases missing : unresolved? methods with
    | none =>
      have resolved := unresolved?_eq_none.mp missing
      rw [linearize_of_resolved resolved declared]
      cases found : cycle? methods entry (reach (callees methods) (steps methods) [entry] []) with
      | none =>
        refine .order declared resolved ?_ (ordered_of_reached resolved distinct declared)
        intro a reachable cyclic
        exact cycle?_ne_none resolved distinct declared reachable cyclic found
      | some members =>
        exact .cycle declared resolved (reportsCycle_of_found resolved distinct declared found)
    | some fault =>
      obtain ⟨m, member, first⟩ := exists_of_findSome?_eq_some missing
      obtain ⟨site, found, rfl⟩ := Option.map_eq_some_iff.mp first
      have unknown := find?_some found
      rw [Option.isNone_iff_eq_none] at unknown
      have known : (find? methods entry).isNone = false := by
        rw [← Option.not_isSome, find?_isSome.mpr declared]
        rfl
      rw [linearize, known, missing]
      refine .noCallee declared member (mem_of_find?_eq_some found) ?_
      rw [← find?_isSome, unknown]
      exact Bool.false_ne_true
  · have unknown : (find? methods entry).isNone = true := by
      rwa [← find?_isSome, Option.not_isSome_iff_eq_none, ← Option.isNone_iff_eq_none] at declared
    rw [linearize, unknown]
    exact .noEntry declared

/-- The methods of a kernel that was built are in order, and none calls itself. -/
theorem ordered_of_built {s : Schema} {d : Descriptor} (built : s.build = .ok d) :
    Ordered s.methods s.entry d.methods ∧ Acyclic s.methods s.entry := by
  obtain ⟨-, methodNames, -, ordered, -⟩ := Schema.build_eq_ok built
  have ending := linearize_ending (Schema.checkMethodNames_nodup methodNames).1 s.entry
  rw [ordered] at ending
  cases ending with
  | order declared resolved acyclic ordered => exact ⟨ordered, acyclic⟩

/-- Linearizing succeeds exactly if the entry point is declared, every call in every method names a
declared one, and no method that the entry point reaches reaches itself. Then the result is the order
of a depth-first walk. If only the last condition fails there is a report of recursion, which names
one component that has a cycle. -/
theorem linearization_is_exact (distinct : (methods.map Method.name).Nodup) (entry : String) :
    ((∃ order, linearize methods entry = .ok order) ↔
      Declared methods entry ∧ Resolved methods ∧ Acyclic methods entry) ∧
      ((∃ members position, linearize methods entry = .error (.recursion members position)) ↔
        Declared methods entry ∧ Resolved methods ∧ ¬Acyclic methods entry) ∧
      (∀ order, linearize methods entry = .ok order → Ordered methods entry order) ∧
      ∀ members position, linearize methods entry = .error (.recursion members position) →
        ReportsCycle methods entry members position := by
  have ending := linearize_ending distinct entry
  revert ending
  generalize linearize methods entry = result
  intro ending
  cases ending with
  | noEntry undeclared => simp [undeclared]
  | noCallee declared member listed missing =>
    have unresolved : ¬Resolved methods := fun resolved =>
      missing (resolved _ member _ (Method.calls_iff.mpr (mem_map_of_mem listed)))
    simp [unresolved]
  | cycle declared resolved report =>
    obtain ⟨a, reachable, cyclic, -⟩ := report.component
    have cycle : ¬Acyclic methods entry := fun acyclic => acyclic a reachable cyclic
    simp [declared, resolved, cycle, report]
  | order declared resolved acyclic ordered => simp [declared, resolved, acyclic, ordered]

/-- A method that calls these methods, one statement each. -/
def caller (name : String) (names : List String) : Method where
  name := name
  body := names.map fun callee => .expr (.call callee [])

/-- The shared callee `c` is reached through `b` first, and a cycle that is not reached is allowed.
From `x` the same cycle is reached beside a method that calls itself. -/
def crossedMethods : List Method :=
  [caller "c" [], caller "x" ["y", "z"], caller "b" ["c"], caller "run" ["b", "c", "b"],
    caller "y" ["y"], caller "z" ["c", "w"], caller "w" ["z", "c"]]

theorem crossed_methods_linearized :
    (crossedMethods.map Method.name).Nodup ∧
      Ordered crossedMethods "run" [caller "run" ["b", "c", "b"], caller "b" ["c"], caller "c" []] ∧
      ReportsCycle crossedMethods "x" ["z", "w"] (some 1) := by
  have distinct : (crossedMethods.map Method.name).Nodup := by decide
  obtain ⟨-, -, ordered, -⟩ := linearization_is_exact distinct "run"
  obtain ⟨-, -, -, reported⟩ := linearization_is_exact distinct "x"
  exact ⟨distinct, ordered _ rfl, reported _ _ rfl⟩

end CallGraph

end GridKernel
