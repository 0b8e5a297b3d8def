import GridKernel.Proofs.Target.Forms

/-!
# Targets of assignments

The expression on the left of an assignment is found without doing anything: it is a name, or an
element whose index has no effects or was kept in a temporary. `Finds` says so of a set of states,
and `Settled` of every state from the end of the index on.
-/

namespace GridKernel.Target

open List
open Eval (Context Machine Holds Location)
open Typing (typeOf valueType check)

/-! ## Locations -/

/-- The storage that a location stands for. -/
def storageOf : Location → Storage
  | .var name => .var name
  | .field _ name => .field name
  | .element array i => .element array i

variable {l : Location}

section

variable {c : Context} {names : ScopeFrame} {callers : Eval.Frame}
  {m m' : Machine} {T : Held} {bad : Prop} {t : ScalarType} {v w : Value} {types : Temps}

theorem read_takes (h : Eval.readLocation c l m = .ok v m) :
    Takes (At m T) (read c (storageOf l)) (· = v) (At m T) bad := by
  cases l with
  | var name => exact read_var_takes h
  | field i name | element array i => exact onMachine_takes h

/-- A field that was declared is bound. -/
theorem binding_of_holds (holds : Holds c names callers m)
    (declared : c.descriptor.field? name = some f) :
    ∃ i b, c.descriptor.fieldIndex? name = some i ∧ b.Fits m.memory f ∧
      ∀ m', Eval.binding c name m' = .ok (i, b) m' := by
  obtain ⟨i, index, found⟩ := Descriptor.fieldIndex_of_field declared
  obtain ⟨b, bound, fits⟩ := holds.fits found
  refine ⟨i, b, index, fits, fun m' => ?_⟩
  unfold Eval.binding
  rw [index]
  dsimp only
  rw [bound]
  rfl

theorem declaredType_takes (holds : Holds c names callers m) (typed : l.Typed c.descriptor names t)
    :
    Takes (At m T) (declaredType c types (storageOf l)) (· = t) (At m T) bad := by
  cases l with
  | var name =>
    have declared : names.lookup name = some t := typed
    rw [← holds.locals, Eval.Frame.lookup_types] at declared
    obtain ⟨v, found, rfl⟩ := Option.map_eq_some_iff.mp declared
    rintro s ⟨rfl, rfl, set⟩
    refine Ensures.fromState ?_
    rw [found]
    exact ⟨rfl, rfl, rfl, set⟩
  | field i name =>
    obtain ⟨f, declared, -, element⟩ := Typing.scalarType_eq_ok.mp typed.2
    exact orUndefined_takes (by simp [declared, Field.scalarType?, element])
  | element array i =>
    obtain ⟨f, declared, -, element⟩ := Typing.arrayType_eq_ok.mp typed
    exact orUndefined_takes (by simp [declared, Field.scalarType?, element])

theorem write_takes (holds : Holds c names callers m) (typed : l.Typed c.descriptor names t)
    (written : Eval.writeLocation c v l m = .ok () m') :
    Takes (At m T) (write c v (storageOf l)) (fun _ => True) (At m' T) bad := by
  cases l with
  | var name => exact write_var_takes written
  | element array i => exact (onMachine_takes written).mono fun _ _ => trivial
  | field i name =>
    obtain ⟨index, scalar⟩ := typed
    obtain ⟨f, declared, -, -⟩ := Typing.scalarType_eq_ok.mp scalar
    obtain ⟨j, b, index', -, bound⟩ := binding_of_holds holds declared
    obtain rfl : j = i := Option.some.inj (index'.symm.trans index)
    refine (onMachine_takes (a := ()) ?_).mono fun _ _ => trivial
    change EStateM.bind (Eval.binding c name) _ m = _
    unfold EStateM.bind
    rw [bound m]
    exact written

/-- A value is converted to the location's type and stored. -/
inductive Stores (c : Context) (l : Location) (m : Machine) (v w : Value) (m' : Machine) : Prop
  | intro {names : ScopeFrame} {callers : Eval.Frame} {t : ScalarType}
    (holds : Holds c names callers m) (typed : l.Typed c.descriptor names t)
    (converted : v.cast t = w) (written : Eval.writeLocation c w l m = .ok () m')

theorem storeTo_takes (stores : Stores c l m v w m') (own : busy (storageOf l))
    (within : ∀ st ∈ acc.writes, busy st) (pending : ∀ st ∈ acc.pending, busy st)
    (conflict : storageOf l ∈ acc.pending → bad) :
    Takes (At m T) (storeTo c types (storageOf l) v acc) (Busy busy w) (At m' T) bad := by
  obtain ⟨holds, typed, converted, written⟩ := stores
  unfold storeTo
  split
  · rename_i disturbed
    exact .conflict (conflict disturbed)
  · refine (declaredType_takes holds typed).eq_andThen ?_
    rw [converted]
    refine (write_takes holds typed written).andThen fun _ _ => .ret ⟨rfl, ?_, ?_⟩
    · exact forall_mem_cons.mpr ⟨own, within⟩
    · exact forall_mem_cons.mpr ⟨own, pending⟩

/-! ## The size of an array -/

theorem arraySize_of_holds (holds : Holds c names callers m)
    (elements : Typing.arrayType c.descriptor array = .ok t) :
    ∃ size, ∀ {m' : Machine}, m.memory.Keeps m'.memory →
      Eval.arraySize c array m' = .ok size m' := by
  obtain ⟨f, declared, many, element⟩ := Typing.arrayType_eq_ok.mp elements
  obtain ⟨i, b, -, fits, bound⟩ := binding_of_holds holds declared
  obtain ⟨id, buffer, rfl, held, -⟩ := fits.of_array many element
  refine ⟨buffer.size, fun {m'} keeps => ?_⟩
  obtain ⟨buffer', held', -, size⟩ := keeps.buffer held
  have found : Eval.arrayOf c array m' = .ok id m' := bind_of_ok (bound m')
  refine (bind_of_ok found).trans ?_
  rw [get_bind, held', ← size]
  rfl

theorem checkIndex_anywhere (h : Eval.checkIndex array index size m = .ok i m) (m') :
    Eval.checkIndex array index size m' = .ok i m' := by
  let k := index.integer?.getD (-1)
  by_cases inBounds : (0 ≤ k.toInt && k.toInt < size) = true
  · have found : Eval.checkIndex array index size = pure k.toInt.toNat := if_pos inBounds
    rw [found] at h ⊢
    cases h
    rfl
  · have missed : Eval.checkIndex array index size = Eval.trap (.outOfBounds k array size) :=
      if_neg inBounds
    rw [missed] at h
    cases h

end

/-! ## Targets -/

section

variable (c : Context) (steps : Nat) (types : Temps)

/-- In the states that satisfy `Here`, finding what the expression stands for is passive and leads
to the location. -/
structure Finds (target : Expr) (l : Location) (safe : Storage → Prop)
    (Here : Machine → Held → Prop) (bad : Prop) : Prop where
  located : ∀ {m T}, Here m T →
    Takes (At m T) (locate c steps types target) (Quiet safe (storageOf l)) (At m T) bad
  fetched : ∀ {m T v}, Here m T → Eval.readLocation c l m = .ok v m →
    Takes (At m T) (fetch c steps types target)
      (Quiet (fun st => safe st ∨ st = storageOf l) (storageOf l, v)) (At m T) bad
  loaded : ∀ {m T v}, Here m T → Eval.readLocation c l m = .ok v m →
    Takes (At m T) (exec c steps types target)
      (Quiet (fun st => safe st ∨ st = storageOf l) v) (At m T) bad

end

variable {target : Expr}

section

variable {c : Context} {steps : Nat} {types : Temps} {m m' : Machine} {T T' : Held} {bad : Prop}
  {safe : Storage → Prop} {Here : Machine → Held → Prop}

/-- Reading what was found without anything that is still to be written. -/
theorem loadFrom_quiet (loaded : Eval.readLocation c l m = .ok v m) (writes : acc.writes = [])
    (pending : acc.pending = []) (reads : ∀ st ∈ acc.reads, safe st) :
    Takes (At m T) (loadFrom c (storageOf l) acc)
      (Quiet (fun st => safe st ∨ st = storageOf l) v) (At m T) bad := by
  unfold loadFrom
  rw [pending, if_neg not_mem_nil]
  refine (read_takes loaded).eq_andThen (.ret ⟨rfl, writes, pending, ?_⟩)
  exact forall_mem_cons.mpr ⟨.inr rfl, fun st member => .inl (reads st member)⟩

/-- A name is found at once. -/
theorem Finds.named (locates : locate c steps types target = pure (storageOf l, {}))
    (fetches : fetch c steps types target =
      loadFrom c (storageOf l) {} >>= fun r => pure ((storageOf l, r.1), r.2))
    (loads : exec c steps types target = loadFrom c (storageOf l) {}) :
    Finds c steps types target l safe Here bad where
  located _ := by
    rw [locates]
    exact .ret ⟨rfl, rfl, rfl, forall_mem_nil _⟩
  fetched _ loaded := by
    rw [fetches]
    refine (loadFrom_quiet loaded rfl rfl (forall_mem_nil safe)).andThen ?_
    rintro ⟨_, acc⟩ ⟨rfl, writes, pending, reads⟩
    exact .ret ⟨rfl, writes, pending, reads⟩
  loaded _ loaded := by
    rw [loads]
    exact loadFrom_quiet loaded rfl rfl (forall_mem_nil safe)

theorem Finds.var (name) : Finds c steps types (.var name) (.var name) safe Here bad :=
  .named (by rw [locate]; rfl) (by rw [fetch]; rfl) (by rw [exec]; rfl)

theorem Finds.field (i name) : Finds c steps types (.member name) (.field i name) safe Here bad :=
  .named (by rw [locate]; rfl) (by rw [fetch]; rfl) (by rw [exec]; rfl)

/-- An element whose index is passive. -/
theorem Finds.element
    (position : ∀ {m T}, Here m T → Takes (At m T) (exec c steps types index) (Quiet safe v)
      (At m T) bad)
    (sized : ∀ {m T}, Here m T → Eval.arraySize c array m = .ok size m)
    (inBounds : ∀ m, Eval.checkIndex array v size m = .ok i m) :
    Finds c steps types (.element array index) (.element array i) safe Here bad where
  located here := by
    rw [locate]
    refine (position here).andThen ?_
    rintro ⟨_, acc⟩ ⟨rfl, writes, pending, reads⟩
    exact (elementAt_takes (sized here) (inBounds _)).eq_andThen
      (.ret ⟨rfl, writes, pending, reads⟩)
  fetched here loaded := by
    rw [fetch]
    refine (position here).andThen ?_
    rintro ⟨_, acc⟩ ⟨rfl, writes, pending, reads⟩
    refine (elementAt_takes (sized here) (inBounds _)).eq_andThen ?_
    refine (loadFrom_quiet (l := .element array i) loaded writes pending reads).andThen ?_
    rintro ⟨_, acc'⟩ ⟨rfl, writes', pending', reads'⟩
    exact .ret ⟨rfl, writes', pending', reads'⟩
  loaded here loaded := by
    rw [exec]
    refine (position here).andThen ?_
    rintro ⟨_, acc⟩ ⟨rfl, writes, pending, reads⟩
    refine (elementAt_takes (sized here) (inBounds _)).eq_andThen ?_
    exact loadFrom_quiet (l := .element array i) loaded writes pending reads

theorem Finds.weaken (h : Finds c steps types target l safe Here bad) (fault : bad → bad') :
    Finds c steps types target l safe Here bad' where
  located here := (h.located here).weaken fault
  fetched here read := (h.fetched here read).weaken fault
  loaded here read := (h.loaded here read).weaken fault

/-! ## Storing to a target -/

variable {l : Location} {target : Expr}

section

variable (finds : Finds c steps types target l safe Here bad)
include finds

theorem Finds.assign (start : Here m T) (after : Here m₁ T') (disjoint : ∀ st, safe st → ¬busy st)
    (valued : Takes (At m T) (exec c steps types value) (Busy busy v) (At m₁ T') bad)
    (free : ¬busy (storageOf l)) (stores : Stores c l m₁ v w m') :
    Takes (At m T) (exec c steps types (.assign target value))
      (Busy (fun st => busy st ∨ st = storageOf l) w) (At m' T') bad := by
  rw [exec]
  refine (both_second (At.steady m T) disjoint (finds.located start) (finds.located after)
    valued).andThen ?_
  rintro ⟨_, acc⟩ ⟨rfl, within, pending⟩
  refine storeTo_takes stores (.inr rfl) ?_ ?_ ?_
  · exact fun st member => .inl (within st member)
  · exact fun st member => .inl (pending st member)
  · exact fun disturbed => absurd (pending _ disturbed) free

/-- An assignment of a value that touches nothing. -/
theorem Finds.assign_passive (here : Here m T)
    (valued : Takes (At m T) (exec c steps types value) (Busy (fun _ => False) v) (At m T) bad)
    (stores : Stores c l m v w m') (own : busy (storageOf l)) :
    Takes (At m T) (exec c steps types (.assign target value)) (Busy busy w) (At m' T) bad := by
  refine (finds.assign here here (fun _ _ => id) valued id stores).mono fun _ h => h.imp ?_
  rintro st (impossible | rfl)
  · exact impossible.elim
  · exact own

/-- C's own compound assignment with a passive value. -/
theorem Finds.compound (here : Here m T) (read : Eval.readLocation c l m = .ok old m)
    (valued : Takes (At m T) (exec c steps types value) (Quiet safe' v) (At m T) bad)
    (applied : apply op old v = .ok u) (stores : Stores c l m u w m') (own : busy (storageOf l)) :
    Takes (At m T) (exec c steps types (.compound op target value)) (Busy busy w) (At m' T)
      bad := by
  rw [exec]
  have nothing : Takes (At m T) (exec c steps types value) (Busy (fun _ => False) v) (At m T) bad :=
    valued.mono fun _ h => h.toBusy
  refine (both_second (At.steady m T) (fun _ _ => id) (finds.fetched here read)
    (finds.fetched here read) nothing).andThen ?_
  rintro ⟨_, acc⟩ ⟨rfl, within, pending⟩
  refine (orTrap_takes applied).eq_andThen ?_
  refine storeTo_takes stores own ?_ ?_ ?_
  · exact fun st member => (within st member).elim
  · exact fun st member => (pending st member).elim
  · exact fun disturbed => (pending _ disturbed).elim

theorem Finds.step (here : Here m T) (read : Eval.readLocation c l m = .ok old m)
    (applied : apply op.binary old (.int 1) = .ok u) (stores : Stores c l m u w m')
    (own : busy (storageOf l)) :
    Takes (At m T) (exec c steps types (.step op before target))
      (Busy busy (if before then w else old)) (At m' T) bad := by
  rw [exec]
  refine (finds.fetched here read).andThen ?_
  rintro ⟨_, acc⟩ ⟨rfl, writes, pending, -⟩
  refine (orTrap_takes applied).eq_andThen ?_
  have stored : Takes (At m T) (storeTo c types (storageOf l) u acc) (Busy busy w) (At m' T)
      bad := by
    refine storeTo_takes stores own ?_ ?_ ?_
    · rw [show acc.writes = [] from writes]
      exact forall_mem_nil _
    · rw [show acc.pending = [] from pending]
      exact forall_mem_nil _
    · rw [show acc.pending = [] from pending]
      exact fun disturbed => absurd disturbed not_mem_nil
  refine stored.andThen ?_
  rintro ⟨_, acc'⟩ ⟨rfl, within, pending'⟩
  exact .ret ⟨rfl, within, pending'⟩

end

end

/-! ## Targets that stay where they are -/

/-- States whose memory has the same shape and that have the same temporaries below `b`. -/
def Beyond (m : Machine) (T : Held) (b : Nat) (m' : Machine) (T' : Held) : Prop :=
  m.memory.Keeps m'.memory ∧ Agree b T T'

/-- What runs before the target leads to the machine after the index, and from then on the target
is the location. -/
def Settled (c : Context) (steps : Nat) (types : Temps) (pre : List Expr) (target : Expr)
    (nodes : List GridKernel.Expr) (lo hi : Nat) (m : Machine) (T : Held) (l : Location)
    (m' : Machine) : Prop :=
  ∃ T', Leads c steps types pre nodes lo hi m T m' T' ∧
    ∀ {bad}, Finds c steps types target l (Below hi) (Beyond m' T' hi) bad

/-- The same of the state that what runs before the target leads to. -/
def Reached (c : Context) (steps : Nat) (types : Temps) (pre : List Expr) (target : Expr)
    (nodes : List GridKernel.Expr) (lo hi : Nat) (m : Machine) (T : Held) (l : Location)
    (m' : Machine) : Prop :=
  ∃ T' safe Here, Leads c steps types pre nodes lo hi m T m' T' ∧
    (∀ T'', Agree hi T' T'' → Here m' T'') ∧
    Finds c steps types target l safe Here (SelfIndexed nodes)

theorem Settled.reached (h : Settled c steps types pre target nodes lo hi m T l m') :
    Reached c steps types pre target nodes lo hi m T l m' := by
  obtain ⟨T', before, finds⟩ := h
  exact ⟨T', _, _, before, fun _ agree => ⟨.refl m'.memory, agree⟩, finds⟩

/-- The place is settled wherever it can be resolved. -/
def Settles (c : Context) (s : Scope) (p : Place GridKernel.Expr) (temps : Temps)
    (pre : List Expr) (target : Expr) (temps' : Temps) : Prop :=
  ∀ ⦃types n steps callers m l m' T⦄, temps' <+: types → n ≤ steps →
    Holds c s.names callers m → Eval.resolve c n p m = .ok l m' →
    Settled c steps types pre target p.nodes temps.length temps'.length m T l m'

/-- The place is reached wherever it can be resolved. -/
def Arrives (c : Context) (s : Scope) (p : Place GridKernel.Expr) (temps : Temps)
    (pre : List Expr) (target : Expr) (temps' : Temps) : Prop :=
  ∀ ⦃types n steps callers m l m' T⦄, temps' <+: types → n ≤ steps →
    Holds c s.names callers m → Eval.resolve c n p m = .ok l m' →
    Reached c steps types pre target p.nodes temps.length temps'.length m T l m'

section

variable {s : Scope} {callers : Eval.Frame} {em : Emitted}

theorem Settles.arrives (h : Settles c s p temps pre target temps') :
    Arrives c s p temps pre target temps' :=
  fun _ _ _ _ _ _ _ _ inside enough holds resolved =>
    (h inside enough holds resolved).reached

theorem resolve_element (ended : Eval.resolve c (n + 1) (.element array index) m = .ok l m') :
    ∃ v size i, l = .element array i ∧ Eval.eval c n index m = .ok v m' ∧
      Eval.arraySize c array m' = .ok size m' ∧ ∀ m, Eval.checkIndex array v size m = .ok i m := by
  obtain ⟨v, m₁, evaluated, rest⟩ := bind_ok ended
  obtain ⟨size, m₂, sized, rest⟩ := bind_ok rest
  obtain ⟨i, m₃, inBounds, found⟩ := bind_ok rest
  obtain rfl := (Eval.Reads.measures c array).state sized
  obtain rfl := (Eval.Reads.checks array v size).state inBounds
  cases found
  exact ⟨v, size, i, rfl, evaluated, sized, checkIndex_anywhere inBounds⟩

theorem steps_of_resolve (ended : Eval.resolve c n p m = .ok l m') : ∃ k, n = k + 1 := by
  cases n with
  | zero => cases ended
  | succ n => exact ⟨n, rfl⟩

/-- A location is storage of its place. -/
theorem isOf_of_resolve (ended : Eval.resolve c n p m = .ok l m') :
    (storageOf l).isOf p = true := by
  obtain ⟨n, rfl⟩ := steps_of_resolve ended
  cases p with
  | var name =>
    cases ended
    exact beq_self_eq_true name
  | field name =>
    obtain ⟨⟨i, b⟩, m₁, -, rest⟩ := bind_ok ended
    cases rest
    exact beq_self_eq_true name
  | element array index =>
    obtain ⟨v, size, i, rfl, -⟩ := resolve_element ended
    exact beq_self_eq_true array

/-- The size of the array, in every state with the same shape of memory. -/
theorem sized_beyond (holds : Holds c s.names callers m)
    (elements : Typing.arrayType c.descriptor array = .ok t)
    (sized : Eval.arraySize c array m = .ok size m) (keeps : m.memory.Keeps m'.memory) :
    Eval.arraySize c array m' = .ok size m' := by
  obtain ⟨size', everywhere⟩ := arraySize_of_holds holds elements
  have here := everywhere (.refl m.memory)
  rw [sized] at here
  cases here
  exact everywhere keeps

theorem settles_var (name temps) : Settles c s (.var name) temps [] (.var name) temps := by
  intro types n steps callers m l m' T _ _ _ ended
  obtain ⟨n, rfl⟩ := steps_of_resolve ended
  cases ended
  exact ⟨T, .nil _ T, .var name⟩

theorem settles_field (name temps) : Settles c s (.field name) temps [] (.member name) temps := by
  intro types n steps callers m l m' T _ _ _ ended
  obtain ⟨n, rfl⟩ := steps_of_resolve ended
  obtain ⟨⟨i, b⟩, m₁, bound, rest⟩ := bind_ok ended
  obtain rfl := (Eval.Reads.finds c name).state bound
  cases rest
  exact ⟨T, .nil _ T, .field i name⟩

/-- An element whose index is a literal. -/
theorem settles_literal (v) (elements : Typing.arrayType c.descriptor array = .ok t) (temps) :
    Settles c s (.element array (.literal v)) temps [] (.element array (.literal v)) temps := by
  intro types n steps callers m l m' T _ _ holds ended
  obtain ⟨n, rfl⟩ := steps_of_resolve ended
  obtain ⟨w, size, i, rfl, evaluated, sized, inBounds⟩ := resolve_element ended
  obtain ⟨rfl, rfl⟩ := eval_literal evaluated
  exact ⟨T, .nil _ T, .element (fun _ => literal_takes _ _)
    (fun here => sized_beyond holds elements sized here.1) inBounds⟩

/-- An element whose index is kept in a temporary. -/
theorem settles_kept (checked : check c.descriptor = .ok ())
    (rendered : Rendered c s index .int temps em temps')
    (elements : Typing.arrayType c.descriptor array = .ok t) :
    Settles c s (.element array index) temps
      (em.pre ++ [.assign (.temp temps'.length) em.operand]) (.element array (.temp temps'.length))
      (temps' ++ [.int]) := by
  intro types n steps callers m l m' T inside enough holds ended
  rw [show (temps' ++ [ScalarType.int]).length = temps'.length + 1 from length_append]
  obtain ⟨n, rfl⟩ := steps_of_resolve ended
  obtain ⟨v, size, i, rfl, evaluated, sized, inBounds⟩ := resolve_element ended
  obtain ⟨typed, holds'⟩ := ((Eval.sound checked n).value rendered.type holds).of_ok evaluated
  obtain ⟨T', held, stored⟩ :=
    (rendered.runs ((prefix_append _ _).trans inside) (Nat.le_of_succ_le enough) holds
      evaluated T).kept (exec_operand em)
      rendered.grows.length_le (typed ▸ type_of_front inside)
  refine ⟨T', stored, .element (fun here => ?_)
    (fun here => sized_beyond holds' elements sized here.1) inBounds⟩
  exact temp_takes ((here.2 _ (Nat.lt_succ_self _)).trans held) ⟨_, Nat.lt_succ_self _, rfl⟩

/-- An element whose index has no effects, as long as the machine is the same. -/
theorem finds_plain (rendered : Rendered c s index t temps em temps')
    (plain : index.hasEffects = false) (inside : temps' <+: types) (enough : n ≤ steps) (holds : Holds c s.names callers m)
    (ended : Eval.resolve c n (.element array index) m = .ok l m') :
    m' = m ∧ Finds c steps types (.element array em.value) l (fun _ => True) (fun m' _ => m' = m)
      (SelfIndexed index.nodes) := by
  obtain ⟨n, rfl⟩ := steps_of_resolve ended
  obtain ⟨v, size, i, rfl, evaluated, sized, inBounds⟩ := resolve_element ended
  obtain rfl := Eval.plain_state plain evaluated
  refine ⟨rfl, .element ?_ ?_ inBounds⟩
  · rintro _ T rfl
    exact rendered.passive plain inside (Nat.le_of_succ_le enough) holds evaluated T
  · rintro _ T rfl
    exact sized

theorem arrives_plain (rendered : Rendered c s index t temps em temps)
    (plain : index.hasEffects = false) (array) :
    Arrives c s (.element array index) temps [] (.element array em.value) temps := by
  intro types n steps callers m l m₁ T inside enough holds resolved
  obtain ⟨rfl, finds⟩ := finds_plain rendered plain inside enough holds resolved
  exact ⟨T, _, _, .nil m₁ T, fun _ _ => rfl, finds⟩

end

end GridKernel.Target
