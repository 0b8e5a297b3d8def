import GridKernel.Proofs.Ensures
import GridKernel.Proofs.Target.Semantics

/-!
# Operands in any order

The order of operands cannot be seen if at most one of them does anything, and the others yield the
same before and after it and read nothing that it writes. `Takes` states what a computation does for
every schedule; the lemmas below carry it from operands to operators and calls.
-/

namespace GridKernel.Target

open List

variable {α β γ : Type} {P Q B A : State → Prop} {bad : Prop}

/-- From states with `P` the computation ends in states with `Q`, with a result that is `good`, or
at a conflict, which it does only if `bad`. -/
def Takes (P : State → Prop) (x : Exec α) (good : α → Prop) (Q : State → Prop) (bad : Prop) :
    Prop :=
  ∀ s, P s → Ensures x s (fun a s' => good a ∧ Q s') fun fault _ => fault = .conflict ∧ bad

namespace Takes

variable {x : Exec α}

theorem andThen (h : Takes P x good Q bad) (next : ∀ a, good a → Takes Q (f a) good' R bad) :
    Takes P (x >>= f) good' R bad :=
  fun s start => Ensures.andThen (h s start) fun a s' ended => next a ended.1 s' ended.2

theorem ret (h : good a) : Takes P (pure a) good P bad := fun _ start => ⟨h, start⟩

theorem conflict (h : bad) : Takes P (throw .conflict : Exec α) good Q bad := fun _ _ => ⟨rfl, h⟩

theorem imp (h : Takes P x good Q bad) (start : ∀ s, R s → P s) (result : ∀ a, good a → good' a)
    (ended : ∀ s, Q s → B s) (fault : bad → bad') : Takes R x good' B bad' := fun s within =>
  (h s (start s within)).imp (fun a s' after => ⟨result a after.1, ended s' after.2⟩)
    fun _ _ stopped => ⟨stopped.1, fault stopped.2⟩

theorem mono (h : Takes P x good Q bad) (result : ∀ a, good a → good' a) : Takes P x good' Q bad :=
  h.imp (fun _ within => within) result (fun _ within => within) fun fault => fault

theorem weaken (h : Takes P x good Q bad) (fault : bad → bad') : Takes P x good Q bad' :=
  h.imp (fun _ within => within) (fun _ result => result) (fun _ within => within) fault

/-- A result that is known. -/
theorem eq_andThen (h : Takes P x (· = a) Q bad) (next : Takes Q (f a) good' R bad) :
    Takes P (x >>= f) good' R bad :=
  h.andThen fun _ same => same ▸ next

end Takes

/-- What holds of a state whatever its schedule is. -/
def Steady (P : State → Prop) : Prop := ∀ s schedule, P s → P { s with schedule := schedule }

theorem nextChoice_takes (steady : Steady P) : Takes P nextChoice (fun _ => True) P bad :=
  fun s start => ⟨trivial, steady s s.schedule.tail start⟩

/-! ## Results of operands -/

section

variable (safe busy : Storage → Prop)

/-- The operand has the value `v`, writes nothing, and reads only what is `safe`. -/
structure Quiet (v : α) (r : α × Accesses) : Prop where
  value : r.1 = v
  writes : r.2.writes = []
  pending : r.2.pending = []
  reads : ∀ st ∈ r.2.reads, safe st

/-- The operand has the value `v` and writes only what is `busy`. -/
structure Busy (v : α) (r : α × Accesses) : Prop where
  value : r.1 = v
  writes : ∀ st ∈ r.2.writes, busy st
  pending : ∀ st ∈ r.2.pending, busy st

end

variable {safe busy : Storage → Prop}

variable {r : α × Accesses} {v : α}

theorem Quiet.imp (h : Quiet safe v r) (wider : ∀ st, safe st → safe' st) :
    Quiet safe' v r where
  value := h.value
  writes := h.writes
  pending := h.pending
  reads st member := wider st (h.reads st member)

theorem Quiet.toBusy (h : Quiet safe v r) : Busy busy v r where
  value := h.value
  writes := by rw [h.writes]; exact forall_mem_nil _
  pending := by rw [h.pending]; exact forall_mem_nil _

theorem Quiet.apart (disjoint : ∀ st, safe st → ¬busy st) (h : Quiet safe v r) (h' : Busy busy w r')
    :
    r.2.Apart r'.2 := by
  refine ⟨?_, fun st written read => disjoint st (h.reads st read) (h'.writes st written)⟩
  rw [h.writes]
  exact forall_mem_nil _

theorem Busy.apart (disjoint : ∀ st, safe st → ¬busy st) (h : Busy busy v r) (h' : Quiet safe w r')
    :
    r.2.Apart r'.2 := by
  refine ⟨fun st written => ⟨fun read => ?_, ?_⟩, ?_⟩
  · exact disjoint st (h'.reads st read) (h.writes st written)
  · rw [h'.writes]
    exact not_mem_nil
  · rw [h'.writes]
    exact forall_mem_nil _

theorem Busy.join (h : Busy busy v r) (h' : Busy busy w r') :
    Busy busy (v, w) ((r.1, r'.1), r.2.join r'.2) where
  value := by rw [h.value, h'.value]
  writes _ member := (mem_append.mp member).elim (h.writes _) (h'.writes _)
  pending _ member := (mem_append.mp member).elim (h.pending _) (h'.pending _)

theorem Busy.imp (h : Busy busy v r) (wider : ∀ st, busy st → busy' st) :
    Busy busy' v r where
  value := h.value
  writes st member := wider st (h.writes st member)
  pending st member := wider st (h.pending st member)

/-- An operand that can write nothing. -/
theorem Busy.quiet (h : Busy busy v r) (nothing : ∀ st, ¬busy st) :
    Quiet (fun _ => True) v r where
  value := h.value
  writes := eq_nil_iff_forall_not_mem.mpr fun st member => nothing st (h.writes st member)
  pending := eq_nil_iff_forall_not_mem.mpr fun st member => nothing st (h.pending st member)
  reads _ _ := trivial

theorem Busy.cons (h : Busy busy v r)
    (rest : Busy busy vs (rs.map Prod.fst, (rs.map Prod.snd).foldr Accesses.join {})) :
    Busy busy (v :: vs)
      ((r :: rs).map Prod.fst, ((r :: rs).map Prod.snd).foldr Accesses.join {}) where
  value := by
    have values : rs.map Prod.fst = vs := rest.value
    change r.1 :: rs.map Prod.fst = v :: vs
    rw [h.value, values]
  writes _ member := (mem_append.mp member).elim (h.writes _) (rest.writes _)
  pending _ member := (mem_append.mp member).elim (h.pending _) (rest.pending _)

/-! ## Two operands -/

/-- The first operand is passive, the second one may do something. -/
theorem both_second (steady : Steady B) (disjoint : ∀ st, safe st → ¬busy st)
    (before : Takes B x (Quiet safe v) B bad) (after : Takes A x (Quiet safe v) A bad)
    (active : Takes B y (Busy busy w) A bad) : Takes B (both x y) (Busy busy (v, w)) A bad := by
  refine Takes.andThen (nextChoice_takes steady) fun first _ => ?_
  have finish : ∀ a b, Quiet safe v a → Busy busy w b →
      Takes A (joined a b) (Busy busy (v, w)) A bad := by
    intro a b quiet busy
    unfold joined
    rw [if_pos (quiet.apart disjoint busy)]
    exact .ret (quiet.toBusy.join busy)
  split
  · exact before.andThen fun a quiet => active.andThen fun b busy => finish a b quiet busy
  · exact active.andThen fun b busy => after.andThen fun a quiet => finish a b quiet busy

/-- The second operand is passive, the first one may do something. -/
theorem both_first (steady : Steady B) (disjoint : ∀ st, safe st → ¬busy st)
    (active : Takes B x (Busy busy v) A bad) (before : Takes B y (Quiet safe w) B bad)
    (after : Takes A y (Quiet safe w) A bad) : Takes B (both x y) (Busy busy (v, w)) A bad := by
  refine Takes.andThen (nextChoice_takes steady) fun first _ => ?_
  have finish : ∀ a b, Busy busy v a → Quiet safe w b →
      Takes A (joined a b) (Busy busy (v, w)) A bad := by
    intro a b busy quiet
    unfold joined
    rw [if_pos (busy.apart disjoint quiet)]
    exact .ret (busy.join quiet.toBusy)
  split
  · exact active.andThen fun a busy => after.andThen fun b quiet => finish a b busy quiet
  · exact before.andThen fun b quiet => active.andThen fun a busy => finish a b busy quiet

/-! ## Operands of a call -/

section

variable (B A : State → Prop) (safe busy : Storage → Prop) (bad : Prop)

/-- Operands with their values. All are passive, or all but the one that leads from `B` to `A`. -/
inductive Arranged : Bool → List (Exec (α × Accesses)) → List α → Prop
  | nil : Arranged false [] []
  | passive {active : Bool} {x : Exec (α × Accesses)} {v : α} {xs : List (Exec (α × Accesses))}
      {vs : List α} (before : Takes B x (Quiet safe v) B bad)
      (after : Takes A x (Quiet safe v) A bad) (rest : Arranged active xs vs) :
      Arranged active (x :: xs) (v :: vs)
  | active {x : Exec (α × Accesses)} {v : α} {xs : List (Exec (α × Accesses))} {vs : List α}
      (acts : Takes B x (Busy busy v) A bad) (rest : Arranged false xs vs) :
      Arranged true (x :: xs) (v :: vs)

/-- Values with the results of their operands. -/
inductive Answered : Bool → List α → List (α × Accesses) → Prop
  | nil : Answered false [] []
  | quiet {active : Bool} {v : α} {r : α × Accesses} {vs : List α} {rs : List (α × Accesses)}
      (first : Quiet safe v r) (rest : Answered active vs rs) :
      Answered active (v :: vs) (r :: rs)
  | busy {v : α} {r : α × Accesses} {vs : List α} {rs : List (α × Accesses)}
      (first : Busy busy v r) (rest : Answered false vs rs) : Answered true (v :: vs) (r :: rs)

end

namespace Answered

variable {active : Bool}

theorem join (h : Answered safe busy active vs rs) :
    Busy (fun st => active = true ∧ busy st) vs
      (rs.map Prod.fst, (rs.map Prod.snd).foldr Accesses.join {}) := by
  induction h with
  | nil => exact ⟨rfl, forall_mem_nil _, forall_mem_nil _⟩
  | quiet first _ ih => exact first.toBusy.cons ih
  | busy first _ ih =>
    exact (first.imp fun _ within => ⟨rfl, within⟩).cons (ih.imp fun _ within => ⟨rfl, within.2⟩)

theorem all_quiet {w : α} (disjoint : ∀ st, safe st → ¬busy st) (first : Busy busy w r)
    (h : Answered safe busy false vs rs) : ∀ acc ∈ rs.map Prod.snd, r.2.Apart acc := by
  generalize none : false = active at h
  induction h with
  | nil => exact forall_mem_nil _
  | quiet second _ ih => exact forall_mem_cons.mpr ⟨first.apart disjoint second, ih none⟩
  | busy => cases none

theorem all_apart {w : α} (disjoint : ∀ st, safe st → ¬busy st) (first : Quiet safe w r)
    (h : Answered safe busy active vs rs) : ∀ acc ∈ rs.map Prod.snd, r.2.Apart acc := by
  induction h with
  | nil => exact forall_mem_nil _
  | quiet second _ ih =>
    exact forall_mem_cons.mpr ⟨first.apart disjoint second.toBusy, ih⟩
  | busy second _ ih => exact forall_mem_cons.mpr ⟨first.apart disjoint second, ih⟩

theorem pairwise (disjoint : ∀ st, safe st → ¬busy st) (h : Answered safe busy active vs rs) :
    (rs.map Prod.snd).Pairwise Accesses.Apart := by
  induction h with
  | nil => exact .nil
  | quiet first rest ih => exact .cons (rest.all_apart disjoint first) ih
  | busy first rest ih => exact .cons (rest.all_quiet disjoint first) ih

/-- The result of a passive operand among those of the others. -/
theorem insert_quiet (found : vs[i]? = some v) (first : Quiet safe v r)
    (h : Answered safe busy active (vs.eraseIdx i) rs) :
    Answered safe busy active vs (rs.insertIdx i r) := by
  induction vs generalizing i rs active with
  | nil => cases found
  | cons w vs ih =>
    cases i with
    | zero =>
      cases found
      exact .quiet first h
    | succ i =>
      cases h with
      | quiet second rest => exact .quiet second (ih found rest)
      | busy second rest => exact .busy second (ih found rest)

/-- The result of the active operand among those of the others. -/
theorem insert_busy (found : vs[i]? = some v) (first : Busy busy v r)
    (h : Answered safe busy false (vs.eraseIdx i) rs) :
    Answered safe busy true vs (rs.insertIdx i r) := by
  induction vs generalizing i rs with
  | nil => cases found
  | cons w vs ih =>
    cases i with
    | zero =>
      cases found
      exact .busy first h
    | succ i =>
      cases h with
      | quiet second rest => exact .quiet second (ih found rest)

end Answered

namespace Arranged

variable {active : Bool}

theorem imp (h : Arranged B A safe busy bad active xs vs) (wider : ∀ st, busy st → busy' st)
    (fault : bad → bad') : Arranged B A safe busy' bad' active xs vs := by
  induction h with
  | nil => exact .nil
  | passive before after _ ih => exact .passive (before.weaken fault) (after.weaken fault) ih
  | active acts _ ih => exact .active ((acts.weaken fault).mono fun _ h => h.imp wider) ih

/-- After the active operand only passive ones are left. -/
theorem settled (h : Arranged B A safe busy bad false xs vs) :
    Arranged A A safe busy bad false xs vs := by
  generalize none : false = active at h
  induction h with
  | nil => exact .nil
  | passive _ after _ ih => exact .passive after after (ih none)
  | active => cases none

/-- Any of the operands can be taken out. -/
theorem take (h : Arranged B A safe busy bad active xs vs) (inBounds : i < xs.length) :
    ∃ x v, xs[i]? = some x ∧ vs[i]? = some v ∧
      ((Takes B x (Quiet safe v) B bad ∧
          Arranged B A safe busy bad active (xs.eraseIdx i) (vs.eraseIdx i)) ∨
        (active = true ∧ Takes B x (Busy busy v) A bad ∧
          Arranged A A safe busy bad false (xs.eraseIdx i) (vs.eraseIdx i))) := by
  induction h generalizing i with
  | nil => cases inBounds
  | @passive _ x v _ _ before after rest ih =>
    cases i with
    | zero => exact ⟨x, v, rfl, rfl, .inl ⟨before, rest⟩⟩
    | succ i =>
      obtain ⟨y, w, foundX, foundV, others⟩ := ih (Nat.lt_of_succ_lt_succ inBounds)
      refine ⟨y, w, foundX, foundV, ?_⟩
      rcases others with ⟨taken, others⟩ | ⟨acts, taken, others⟩
      · exact .inl ⟨taken, .passive before after others⟩
      · exact .inr ⟨acts, taken, .passive after after others⟩
  | @active x v _ _ acts rest ih =>
    cases i with
    | zero => exact ⟨x, v, rfl, rfl, .inr ⟨rfl, acts, rest.settled⟩⟩
    | succ i =>
      obtain ⟨y, w, foundX, foundV, others⟩ := ih (Nat.lt_of_succ_lt_succ inBounds)
      refine ⟨y, w, foundX, foundV, ?_⟩
      rcases others with ⟨taken, others⟩ | ⟨absurd, -, -⟩
      · exact .inl ⟨taken, .active acts others⟩
      · cases absurd

/-- In whatever order the operands are run, each gives its value. -/
theorem anyOrder_takes (steadyB : Steady B) (steadyA : Steady A)
    (h : Arranged B A safe busy bad active xs vs) :
    Takes B (anyOrder xs.length xs) (Answered safe busy active vs) (bif active then A else B)
      bad := by
  generalize count : xs.length = n
  induction n generalizing B active xs vs with
  | zero =>
    cases h with
    | nil => exact .ret .nil
    | passive | active => cases count
  | succ n ih =>
    refine Takes.andThen (nextChoice_takes steadyB) fun k _ => ?_
    have inBounds : k % (n + 1) < xs.length := by
      rw [count]
      exact Nat.mod_lt k n.succ_pos
    have left : (xs.eraseIdx (k % (n + 1))).length = n := by
      rw [length_eraseIdx_of_lt inBounds, count, Nat.add_sub_cancel]
    obtain ⟨x, v, foundX, foundV, others⟩ := h.take inBounds
    dsimp only
    rw [foundX]
    refine Takes.eq_andThen (Takes.ret rfl) ?_
    rcases others with ⟨taken, others⟩ | ⟨rfl, taken, others⟩
    · refine taken.andThen fun r quiet => (ih steadyB others left).andThen fun rs answered => ?_
      exact .ret (answered.insert_quiet foundV quiet)
    · refine taken.andThen fun r busy => (ih steadyA others left).andThen fun rs answered => ?_
      exact .ret (answered.insert_busy foundV busy)

theorem unsequenced_takes (steadyB : Steady B) (steadyA : Steady A)
    (disjoint : ∀ st, safe st → ¬busy st) (h : Arranged B A safe busy bad active xs vs) :
    Takes B (unsequenced xs) (Busy (fun st => active = true ∧ busy st) vs)
      (bif active then A else B) bad := by
  refine (h.anyOrder_takes steadyB steadyA).andThen fun rs answered => ?_
  rw [if_pos (answered.pairwise disjoint)]
  exact .ret answered.join

end Arranged

end GridKernel.Target
