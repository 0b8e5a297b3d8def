import GridKernel.Proofs.Target.Paths
import Mathlib.Data.List.Perm.Basic
import Mathlib.Data.List.Range

/-!
# Temporaries

`Expr.assigned` lists the temporaries that the assignments in an expression store into, and
`Expr.Safe` says that along every path a temporary is written before it is read. `Tidy` puts both
together for what a translation gives: expressions that run first, in order, and then values.
-/

namespace GridKernel.Target

open List

/-! ## Written before read -/

/-- Each temporary is written before it is read, or is one of those written already. -/
def Covered : List Nat → List TempAccess → Prop
  | _, [] => True
  | written, .read n :: rest => n ∈ written ∧ Covered written rest
  | written, .write n :: rest => Covered (n :: written) rest

/-- The temporaries that a path writes. -/
def written (path : List TempAccess) : List Nat :=
  path.filterMap fun
    | .write n => some n
    | .read _ => none

theorem mem_written : n ∈ written path ↔ .write n ∈ path := by
  simp only [written, mem_filterMap]
  constructor
  · rintro ⟨access, member, same⟩
    cases access with
    | read m => cases same
    | write m =>
      cases same
      exact member
  · intro member
    exact ⟨_, member, rfl⟩

theorem Interleaved.nil_left (h : Interleaved [] b c) : c = b := by
  induction b generalizing c with
  | nil =>
    cases h
    rfl
  | cons x rest ih =>
    cases h with
    | right _ h => rw [ih h]

namespace Covered

variable {W : List Nat} {a path : List TempAccess}

theorem mono (h : Covered W path) (more : W ⊆ W') : Covered W' path := by
  induction path generalizing W W' with
  | nil => trivial
  | cons access rest ih =>
    cases access with
    | read n => exact ⟨more h.1, ih h.2 more⟩
    | write n => exact ih h (cons_subset_cons n more)

theorem append (first : Covered W a) (second : Covered (written a ++ W) b) : Covered W (a ++ b) := by
  induction a generalizing W with
  | nil => exact second
  | cons access rest ih =>
    cases access with
    | read n => exact ⟨first.1, ih first.2 second⟩
    | write n =>
      refine ih first (second.mono ?_)
      intro m member
      simp only [written, filterMap_cons, mem_append, mem_cons] at member ⊢
      tauto

/-- What follows covers itself. -/
theorem followed (first : Covered W a) (second : Covered W b) : Covered W (a ++ b) :=
  first.append (second.mono (subset_append_right _ _))

theorem interleaved (first : Covered W a) (second : Covered W b) (turns : Interleaved a b c) :
    Covered W c := by
  induction turns generalizing W with
  | nil => trivial
  | left access _ ih =>
    cases access with
    | read n => exact ⟨first.1, ih first.2 second⟩
    | write n => exact ih first (second.mono (subset_cons_self n W))
  | right access _ ih =>
    cases access with
    | read n => exact ⟨second.1, ih first second.2⟩
    | write n => exact ih (first.mono (subset_cons_self n W)) second

/-- The reads of a covered path, one by one. -/
theorem write_before (h : Covered W path) {before after : List TempAccess}
    (split : path = before ++ .read n :: after) : n ∈ W ∨ .write n ∈ before := by
  induction before generalizing W path with
  | nil =>
    subst split
    exact .inl h.1
  | cons access rest ih =>
    subst split
    cases access with
    | read m => exact (ih h.2 rfl).imp id (mem_cons_of_mem _)
    | write m =>
      have rest : Covered (m :: W) (rest ++ .read n :: after) := h
      rcases ih rest rfl with already | later
      · rcases mem_cons.mp already with rfl | already
        · exact .inr mem_cons_self
        · exact .inl already
      · exact .inr (mem_cons_of_mem _ later)

end Covered

/-! ## Expressions -/

mutual

/-- The temporaries that stores in the expression are into, each as often as there is one. -/
def Expr.assigned : Expr → List Nat
  | .literal _ | .var _ | .temp _ | .member _ | .lengthOf _ => []
  | .element _ e | .addressOf _ e | .paren e | .unary _ e | .cast _ e => e.assigned
  | .binary _ lhs rhs | .shiftUnsigned _ lhs rhs => lhs.assigned ++ rhs.assigned
  | .conditional cond thenValue elseValue =>
    cond.assigned ++ (thenValue.assigned ++ elseValue.assigned)
  | .call _ args => Expr.allAssigned args
  | .assign target value | .compound _ target value =>
    target.temp?.toList ++ (target.assigned ++ value.assigned)
  | .step _ _ target => target.temp?.toList ++ target.assigned
  | .comma first value => Expr.allAssigned first ++ value.assigned

def Expr.allAssigned : List Expr → List Nat
  | [] => []
  | e :: rest => e.assigned ++ Expr.allAssigned rest

end

-- The equations of the mutual recursion are derived here once, ahead of the lemmas that use them.
attribute [local simp] Expr.assigned Expr.allAssigned

theorem Expr.allAssigned_eq (es) : Expr.allAssigned es = es.flatMap Expr.assigned := by
  induction es with
  | nil => rfl
  | cons e rest ih => rw [Expr.allAssigned, ih, flatMap_cons]

/-- Where these temporaries are written, every path writes others before it reads them. -/
def Expr.Safe (W : List Nat) (e : Expr) : Prop := ∀ path, e.Path path → Covered W path

theorem Expr.Safe.mono {W W' : List Nat} {e : Expr} (h : e.Safe W) (more : W ⊆ W') : e.Safe W' :=
  fun path taken => (h path taken).mono more

/-- The temporary that an assignment as a whole stores into. -/
def Expr.stores : Expr → List Nat
  | .assign target _ => target.temp?.toList
  | _ => []

theorem Expr.Path.stores_written {e : Expr} {path : List TempAccess} (h : e.Path path) :
    e.stores ⊆ written path := by
  cases e with
  | assign target value =>
    obtain ⟨a, b, c, -, -, -, rfl⟩ := h
    intro n member
    have stored : target.temp? = some n := by simpa [Expr.stores] using member
    rw [mem_written]
    exact mem_append_right _ (by simp [Expr.writes, stored])
  | _ => exact nil_subset _

/-- Parts that run one after the other, each safe after the stores of those before it. -/
def Chained {α : Type} (safe : List Nat → α → Prop) (stores : α → List Nat) :
    List Nat → List α → Prop
  | _, [] => True
  | W, a :: rest => safe W a ∧ Chained safe stores (stores a ++ W) rest

namespace Chained

variable {α : Type} {safe : List Nat → α → Prop} {stores : α → List Nat} {W : List Nat}

theorem mono (weaken : ∀ {a W W'}, safe W a → W ⊆ W' → safe W' a) (h : Chained safe stores W l)
    (more : W ⊆ W') : Chained safe stores W' l := by
  induction l generalizing W W' with
  | nil => trivial
  | cons a rest ih =>
    refine ⟨weaken h.1 more, ih h.2 (append_subset.mpr ⟨subset_append_left _ _, ?_⟩)⟩
    exact subset_append_of_subset_right _ more

theorem append (weaken : ∀ {a W W'}, safe W a → W ⊆ W' → safe W' a) (first : Chained safe stores W l)
    (second : Chained safe stores (l.flatMap stores ++ W) l') :
    Chained safe stores W (l ++ l') := by
  induction l generalizing W with
  | nil => exact second
  | cons a rest ih =>
    refine ⟨first.1, ih first.2 (second.mono weaken ?_)⟩
    intro n member
    simp only [flatMap_cons, mem_append] at member ⊢
    tauto

end Chained

/-- Expressions that run one after the other. -/
def SafeSequence (W : List Nat) (pre : List Expr) : Prop := Chained Expr.Safe Expr.stores W pre

namespace SafeSequence

variable {W : List Nat} {pre : List Expr}

theorem mono (h : SafeSequence W pre) (more : W ⊆ W') : SafeSequence W' pre :=
  Chained.mono Expr.Safe.mono h more

theorem append (first : SafeSequence W pre)
    (second : SafeSequence (pre.flatMap Expr.stores ++ W) pre') : SafeSequence W (pre ++ pre') :=
  Chained.append Expr.Safe.mono first second

/-- A path through the sequence is covered and has written what it stores. -/
theorem covered (h : SafeSequence W pre) (taken : Expr.SequencePath pre path) :
    Covered W path ∧ pre.flatMap Expr.stores ⊆ written path := by
  induction pre generalizing W path with
  | nil =>
    subst taken
    exact ⟨trivial, nil_subset _⟩
  | cons e rest ih =>
    obtain ⟨a, b, first, others, rfl⟩ := taken
    have wrote := first.stores_written
    have later : SafeSequence (e.stores ++ W) rest := h.2
    have next : SafeSequence (written a ++ W) rest := later.mono (append_subset.mpr
      ⟨subset_append_of_subset_left _ wrote, subset_append_right _ _⟩)
    obtain ⟨covered, stored⟩ := ih next others
    refine ⟨(h.1 a first).append covered, ?_⟩
    intro n member
    have whole : written (a ++ b) = written a ++ written b := filterMap_append
    rw [flatMap_cons, mem_append] at member
    rw [whole, mem_append]
    exact member.imp (fun early => wrote early) fun late => stored late

end SafeSequence

/-! ## Expressions from parts -/

/-- The expression evaluates these parts, in some order or some of them, and stores into no
temporary itself. -/
structure Expr.Joins (e : Expr) (parts : List Expr) : Prop where
  assigned : e.assigned = parts.flatMap Expr.assigned
  safe : ∀ {W}, (∀ part ∈ parts, part.Safe W) → e.Safe W

namespace Expr

variable {e lhs rhs : Expr}

/-- A part that evaluates nothing can be left out. -/
theorem Joins.without {parts : List Expr} (h : e.Joins (parts ++ [leaf])) (still : leaf.Joins []) :
    e.Joins parts where
  assigned := by
    rw [h.assigned, flatMap_append, flatMap_singleton, still.assigned]
    exact append_nil _
  safe {W} safe := by
    refine h.safe fun part member => ?_
    rcases mem_append.mp member with inside | last
    · exact safe part inside
    · rw [mem_singleton.mp last]
      exact still.safe (forall_mem_nil _)

theorem interleaved_safe (first : lhs.Safe W) (second : rhs.Safe W) (left : lhs.Path a)
    (right : rhs.Path b) (turns : Interleaved a b path) : Covered W path :=
  (first a left).interleaved (second b right) turns

theorem joins_leaf (nothing : e.assigned = []) (still : ∀ path, e.Path path → path = []) :
    e.Joins [] where
  assigned := nothing
  safe _ path taken := by
    rw [still path taken]
    trivial

theorem joins_literal (v) : (Expr.literal v).Joins [] := joins_leaf rfl fun _ still => still

theorem joins_var (name) : (Expr.var name).Joins [] := joins_leaf rfl fun _ still => still

theorem joins_member (name) : (Expr.member name).Joins [] :=
  joins_leaf rfl fun _ still => still

theorem joins_lengthOf (array) : (Expr.lengthOf array).Joins [] :=
  joins_leaf rfl fun _ still => still

/-- An expression that evaluates one part and stores nothing of its own. -/
theorem joins_around (same : e.assigned = part.assigned)
    (inside : ∀ path, e.Path path → part.Path path) : e.Joins [part] where
  assigned := by rw [same, flatMap_singleton]
  safe h path taken := h part mem_cons_self path (inside path taken)

theorem joins_element (array e) : (Expr.element array e).Joins [e] :=
  joins_around rfl fun _ taken => taken

theorem joins_addressOf (array e) : (Expr.addressOf array e).Joins [e] :=
  joins_around rfl fun _ taken => taken

theorem joins_paren (e) : (Expr.paren e).Joins [e] := joins_around rfl fun _ taken => taken

theorem joins_unary (op e) : (Expr.unary op e).Joins [e] :=
  joins_around rfl fun _ taken => taken

theorem joins_cast (type e) : (Expr.cast type e).Joins [e] :=
  joins_around rfl fun _ taken => taken

theorem joins_binary (op lhs rhs) : (Expr.binary op lhs rhs).Joins [lhs, rhs] where
  assigned := by simp [Expr.assigned]
  safe {W} h path taken := by
    have left : lhs.Safe W := h lhs (by simp)
    have right : rhs.Safe W := h rhs (by simp)
    unfold Expr.Path at taken
    split at taken
    · rcases taken with only | ⟨a, b, first, second, rfl⟩
      · exact left path only
      · exact (left a first).followed (right b second)
    · obtain ⟨a, b, first, second, turns⟩ := taken
      exact interleaved_safe left right first second turns

theorem joins_shiftUnsigned (type lhs rhs) :
    (Expr.shiftUnsigned type lhs rhs).Joins [lhs, rhs] where
  assigned := by simp [Expr.assigned]
  safe {W} h path taken := by
    obtain ⟨a, b, first, second, turns⟩ := taken
    exact interleaved_safe (h lhs (by simp)) (h rhs (by simp)) first second turns

theorem joins_conditional (cond thenValue elseValue) :
    (Expr.conditional cond thenValue elseValue).Joins [cond, thenValue, elseValue] where
  assigned := by simp [Expr.assigned]
  safe {W} h path taken := by
    obtain ⟨a, b, first, either, rfl⟩ := taken
    refine Covered.followed (h cond (by simp) a first) ?_
    rcases either with second | second
    · exact h thenValue (by simp) b second
    · exact h elseValue (by simp) b second

theorem turns_safe (h : ∀ e ∈ args, e.Safe W) (taken : Expr.TurnsPath args path) :
    Covered W path := by
  induction args generalizing path with
  | nil =>
    subst taken
    trivial
  | cons e rest ih =>
    obtain ⟨a, b, first, others, turns⟩ := taken
    exact (h e mem_cons_self a first).interleaved
      (ih (fun e member => h e (mem_cons_of_mem _ member)) others) turns

theorem joins_call (callee args) : (Expr.call callee args).Joins args where
  assigned := by rw [Expr.assigned, allAssigned_eq]
  safe h _ taken := turns_safe h taken

theorem joins_assign (place : target.temp? = none) :
    (Expr.assign target value).Joins [target, value] where
  assigned := by simp [Expr.assigned, place]
  safe {W} h path taken := by
    obtain ⟨a, b, c, start, second, turns, rfl⟩ := taken
    simp only [Expr.writes, place, Option.toList_none, map_nil, append_nil]
    rcases start with ⟨kept, -⟩ | ⟨-, first⟩
    · rw [place] at kept
      cases kept
    · exact interleaved_safe (h target (by simp)) (h value (by simp)) first second turns

theorem joins_compound (op) (place : target.temp? = none) :
    (Expr.compound op target value).Joins [target, value] where
  assigned := by simp [Expr.assigned, place]
  safe {W} h path taken := by
    obtain ⟨a, b, c, first, second, turns, rfl⟩ := taken
    simp only [Expr.writes, place, Option.toList_none, map_nil, append_nil]
    exact interleaved_safe (h target (by simp)) (h value (by simp)) first second turns

theorem joins_step (op before) (place : target.temp? = none) :
    (Expr.step op before target).Joins [target] where
  assigned := by simp [Expr.assigned, place]
  safe {W} h path taken := by
    obtain ⟨a, first, rfl⟩ := taken
    simp only [Expr.writes, place, Option.toList_none, map_nil, append_nil]
    exact h target (by simp) a first

theorem temp_safe (member : n ∈ W) : (Expr.temp n).Safe W := by
  rintro path rfl
  exact ⟨member, trivial⟩

end Expr

/-! ## Translations -/

theorem range'_join (below : lo ≤ mid) (above : mid ≤ hi) :
    List.range' lo (mid - lo) ++ List.range' mid (hi - mid) = List.range' lo (hi - lo) := by
  have start : mid = lo + (mid - lo) := by omega
  nth_rewrite 2 [start]
  rw [range'_append_1]
  congr 1
  omega

/-- What runs first and the values after it: they store into the temporaries from `lo` up to `hi`,
into each once, and read none that was not written. -/
structure Tidy (lo hi : Nat) (pre values : List Expr) : Prop where
  le : lo ≤ hi
  assigned : (pre.flatMap Expr.assigned ++ values.flatMap Expr.assigned).Perm
    (List.range' lo (hi - lo))
  first : SafeSequence [] pre
  after : ∀ e ∈ values, e.Safe (pre.flatMap Expr.stores)

namespace Tidy

variable {parts : List Expr}

theorem nil (lo) : Tidy lo lo [] [] where
  le := Nat.le_refl lo
  assigned := by simp
  first := trivial
  after := fun _ member => nomatch member

/-- One translation after the other; the values of both come last. -/
theorem append (h : Tidy lo mid pre values) (h' : Tidy mid hi pre' values') :
    Tidy lo hi (pre ++ pre') (values ++ values') where
  le := h.le.trans h'.le
  assigned := by
    rw [← range'_join h.le h'.le, flatMap_append, flatMap_append]
    refine List.Perm.trans ?_ (h.assigned.append h'.assigned)
    rw [append_assoc, append_assoc]
    refine List.Perm.append_left _ ?_
    rw [← append_assoc, ← append_assoc]
    exact List.Perm.append_right _ perm_append_comm
  first := h.first.append (h'.first.mono (nil_subset _))
  after := by
    intro e member
    rw [flatMap_append]
    rcases mem_append.mp member with early | late
    · exact (h.after e early).mono (subset_append_left _ _)
    · exact (h'.after e late).mono (subset_append_right _ _)

/-- The order of the values does not matter. -/
theorem perm (h : Tidy lo hi pre values) (same : values.Perm values') : Tidy lo hi pre values' where
  le := h.le
  assigned := ((same.symm.flatMap_right _).append_left _).trans h.assigned
  first := h.first
  after e member := h.after e (same.mem_iff.mpr member)

/-- Some of the values become one expression. -/
theorem join (joins : e.Joins parts) (h : Tidy lo hi pre (parts ++ values)) :
    Tidy lo hi pre (e :: values) where
  le := h.le
  assigned := by
    have same := h.assigned
    rwa [flatMap_append, ← joins.assigned] at same
  first := h.first
  after := by
    intro x member
    rcases mem_cons.mp member with rfl | member
    · exact joins.safe fun part inside => h.after part (mem_append_left _ inside)
    · exact h.after x (mem_append_right _ member)

/-- A value is computed from others and stored into a place. -/
theorem assign (place : target.temp? = none) (joins : e.Joins parts)
    (h : Tidy lo hi pre (parts ++ target :: values)) :
    Tidy lo hi pre (.assign target e :: values) := by
  have both : Tidy lo hi pre ([target, e] ++ values) := (join joins h).perm (.swap _ _ _)
  exact join (Expr.joins_assign place) both

/-- A value that stores into no temporary may be used once more. -/
theorem again (h : Tidy lo hi pre values) (member : e ∈ values) (nothing : e.assigned = []) :
    Tidy lo hi pre (e :: values) where
  le := h.le
  assigned := by simpa [nothing] using h.assigned
  first := h.first
  after := by
    intro x inside
    rcases mem_cons.mp inside with rfl | inside
    · exact h.after x member
    · exact h.after x inside

/-- A value is evaluated before the others. -/
theorem run (h : Tidy lo hi pre (e :: values)) : Tidy lo hi (pre ++ [e]) values where
  le := h.le
  assigned := by simpa using h.assigned
  first := by
    refine h.first.append ⟨?_, trivial⟩
    simpa using h.after e mem_cons_self
  after := by
    intro x member
    rw [flatMap_append]
    exact (h.after x (mem_cons_of_mem _ member)).mono (subset_append_left _ _)

/-- A value is kept in a new temporary. -/
theorem keep (h : Tidy lo hi pre (e :: values)) :
    Tidy lo (hi + 1) (pre ++ [.assign (.temp hi) e]) (.temp hi :: values) where
  le := h.le.trans (Nat.le_succ hi)
  assigned := by
    have size : hi + 1 - lo = hi - lo + 1 := by
      have below := h.le
      omega
    have last : List.range' lo (hi - lo + 1) = List.range' lo (hi - lo) ++ [hi] := by
      have below := h.le
      have top : hi = lo + (hi - lo) := by omega
      rw [range'_1_concat]
      congr 2
      omega
    rw [size, last]
    have moved := (h.assigned.append_right [hi])
    refine List.Perm.trans ?_ moved
    simp only [flatMap_append, flatMap_cons, flatMap_nil, Expr.assigned, Expr.temp?,
      Option.toList_some, append_nil, nil_append, append_assoc]
    refine List.Perm.append_left _ ?_
    have swapped : ([hi] ++ (e.assigned ++ values.flatMap Expr.assigned)).Perm
        ((e.assigned ++ values.flatMap Expr.assigned) ++ [hi]) := perm_append_comm
    rwa [append_assoc] at swapped
  first := by
    refine h.first.append ⟨?_, trivial⟩
    rintro path ⟨a, b, c, start, second, turns, rfl⟩
    have nothing : a = [] := by simpa [Expr.temp?] using start
    subst nothing
    rw [turns.nil_left]
    refine Covered.append ?_ trivial
    simpa using h.after e mem_cons_self b second
  after := by
    intro x member
    rw [flatMap_append]
    rcases mem_cons.mp member with rfl | member
    · exact Expr.temp_safe (mem_append_right _ mem_cons_self)
    · exact (h.after x (mem_cons_of_mem _ member)).mono (subset_append_left _ _)

/-- Everything in one expression. -/
theorem inline (h : Tidy lo hi pre [e]) : Tidy lo hi [] [.comma pre e] where
  le := h.le
  assigned := by simpa [Expr.assigned, Expr.allAssigned_eq] using h.assigned
  first := trivial
  after := by
    intro x member path taken
    rw [mem_singleton.mp member] at taken
    obtain ⟨a, b, before, value, rfl⟩ := taken
    obtain ⟨covered, stored⟩ := h.first.covered before
    refine covered.append ((h.after e mem_cons_self b value).mono ?_)
    exact subset_append_of_subset_left _ stored

theorem operand {simple : Bool} (h : Tidy lo hi pre (e :: values)) :
    Tidy lo hi pre ((if simple then e else .paren e) :: values) := by
  cases simple with
  | true => exact h
  | false => exact Tidy.join (Expr.joins_paren e) h

/-- Without new temporaries nothing is stored. -/
theorem assigned_nil (h : Tidy lo lo pre values) (member : e ∈ values) : e.assigned = [] := by
  have none := h.assigned
  rw [Nat.sub_self, range'_zero, perm_nil, append_eq_nil_iff] at none
  exact flatMap_eq_nil_iff.mp none.2 e member

end Tidy

end GridKernel.Target
