import GridKernel.Proofs.Eval.Simulation

/-!
# The locals of the running methods

The locals of all active methods are in one vector, which is cut off at a mark where a block or a
method ends. Whichever way they are left, a block drops what it declared and a call leaves the vector
and the frame marker as they were. What else happens to a local is an assignment in the text.
-/

namespace GridKernel.Eval

open Ensures List

/-- One of the expressions stores into a local of this name. -/
def Assigns (nodes : List Expr) (name : String) : Prop := ∃ e ∈ nodes, e.target? = some (.var name)

/-- The same names in the same order, with the same values but where they are `assigned`, which only
the latest `k` locals are. -/
structure SameLocals (assigned : String → Prop) (k : Nat) (f f' : Frame) : Prop where
  names : f'.map Prod.fst = f.map Prod.fst
  values : ∀ {i : Nat} {x : String × Value}, f[i]? = some x →
    (i < k ∧ assigned x.1) ∨ f'[i]? = some x

/-- The marker is where it was, and the locals are as they were but for those of the running method
that were `assigned`. -/
def Machine.Keeps (assigned : String → Prop) (m m' : Machine) : Prop :=
  m'.frame = m.frame ∧ SameLocals assigned (m.locals.length - m.frame) m.locals m'.locals

/-- The same, once what was declared since then is dropped. -/
def Machine.Grows (assigned : String → Prop) (m m' : Machine) : Prop :=
  m.Keeps assigned { m' with locals := m'.locals.drop (m'.locals.length - m.locals.length) }

/-- The marker and all locals are as they were. -/
def Machine.Restores (m m' : Machine) : Prop := m'.locals = m.locals ∧ m'.frame = m.frame

variable {m m' m'' : Machine} {assigned : String → Prop} {k : Nat} {f f' f'' : Frame}

namespace SameLocals

theorem refl (k : Nat) (f : Frame) : SameLocals assigned k f f := ⟨rfl, .inr⟩

theorem trans (h : SameLocals assigned k f f') (h' : SameLocals assigned k f' f'') :
    SameLocals assigned k f f'' :=
  ⟨h'.names.trans h.names, fun found => (h.values found).elim .inl h'.values⟩

theorem length_eq (h : SameLocals assigned k f f') : f'.length = f.length := by
  simpa using congrArg length h.names

theorem drop (h : SameLocals assigned (n + k) f f') :
    SameLocals assigned k (f.drop n) (f'.drop n) where
  names := by rw [map_drop, map_drop, h.names]
  values found := by
    rw [getElem?_drop] at found ⊢
    exact (h.values found).imp_left fun ⟨latest, may⟩ => ⟨by omega, may⟩

/-- Below the latest `k` nothing changes. -/
theorem drop_eq (h : SameLocals assigned k f f') : f'.drop k = f.drop k := by
  apply ext_getElem?
  intro i
  rw [getElem?_drop, getElem?_drop]
  cases found : f[k + i]? with
  | some x => exact (h.values found).resolve_left fun ⟨latest, _⟩ => by omega
  | none => rwa [getElem?_eq_none_iff, h.length_eq, ← getElem?_eq_none_iff]

theorem cons (x : String × Value) (h : SameLocals assigned k f f') :
    SameLocals assigned (k + 1) (x :: f) (x :: f') where
  names := congrArg (x.1 :: ·) h.names
  values {i _} found := by
    cases i with
    | zero => exact .inr found
    | succ i => exact (h.values found).imp_left fun ⟨latest, may⟩ => ⟨Nat.succ_lt_succ latest, may⟩

/-- An assignment among the latest `k` locals changes the value of one of them. -/
theorem assign {name : String} {v : Value} {current : Frame} (may : assigned name)
    (done : assignLocal name v (f.take k) = some current) :
    SameLocals assigned k f (current ++ f.drop k) := by
  induction f generalizing k current with
  | nil =>
    rw [take_nil] at done
    cases done
  | cons x rest ih =>
    cases k with
    | zero => cases done
    | succ k =>
      rw [take_succ_cons, assignLocal] at done
      split at done
      · next same =>
        cases done
        rw [drop_succ_cons, cons_append, take_append_drop]
        refine ⟨rfl, fun {i _} found => ?_⟩
        cases i with
        | zero =>
          cases found
          exact .inl ⟨Nat.succ_pos k, same ▸ may⟩
        | succ i => exact .inr found
      · obtain ⟨rest', deeper, rfl⟩ := Option.map_eq_some_iff.mp done
        exact (ih deeper).cons x

end SameLocals

namespace Machine

theorem Restores.keeps (h : m.Restores m') : m.Keeps assigned m' := by
  refine ⟨h.2, ?_⟩
  rw [h.1]
  exact .refl _ m.locals

/-- Where nothing is assigned nothing changes. -/
theorem Keeps.restores (h : m.Keeps (fun _ => False) m') : m.Restores m' := by
  refine ⟨?_, h.1⟩
  have none : SameLocals (fun _ => False) 0 m.locals m'.locals :=
    ⟨h.2.names, fun found => .inr ((h.2.values found).resolve_left And.right)⟩
  exact none.drop_eq

theorem Keeps.grows (h : m.Keeps assigned m') : m.Grows assigned m' := by
  refine ⟨h.1, ?_⟩
  rw [h.2.length_eq, Nat.sub_self]
  exact h.2

theorem Grows.trans (h : m.Grows assigned m') (h' : m'.Grows assigned m'') :
    m.Grows assigned m'' := by
  have shorter := h.2.length_eq
  have shorter' := h'.2.length_eq
  dsimp only at shorter shorter'
  rw [length_drop] at shorter shorter'
  refine ⟨h'.1.trans h.1, h.2.trans ?_⟩
  have marker : m'.frame = m.frame := h.1
  have inner := h'.2
  rw [marker] at inner
  have kept : SameLocals assigned (m'.locals.length - m.locals.length +
      (m.locals.length - m.frame)) m'.locals
      (m''.locals.drop (m''.locals.length - m'.locals.length)) :=
    ⟨inner.names, fun found => (inner.values found).imp_left fun ⟨latest, may⟩ => ⟨by omega, may⟩⟩
  have dropped := kept.drop
  rwa [drop_drop, show m''.locals.length - m'.locals.length + (m'.locals.length - m.locals.length) =
    m''.locals.length - m.locals.length by omega] at dropped

end Machine

/-! ## Evaluation -/

variable {c : Context}

theorem keeps_path (assigned : String → Prop) : Path (Machine.Keeps assigned) fun _ _ => True where
  refl m := ⟨rfl, .refl _ m.locals⟩
  trans {m₁ m₂ m₃} h h' := by
    refine ⟨h'.1.trans h.1, h.2.trans ?_⟩
    have marker : m₂.frame = m₁.frame := h.1
    rw [← h.2.length_eq, ← marker]
    exact h'.2
  early _ := trivial
  after _ _ := trivial

theorem grows_path (assigned : String → Prop) : Path (Machine.Grows assigned) fun _ _ => True where
  refl m := ((keeps_path assigned).refl m).grows
  trans := .trans
  early _ := trivial
  after _ _ := trivial

theorem writes_keep {e : Expr} {p : Place Expr} {l : Location} (v : Value)
    (may : ∀ name, e.target? = some (.var name) → assigned name) (stores : e.target? = some p)
    (located : l.IsAt p) :
    Goes (Machine.Keeps assigned) (fun _ _ => True) (writeLocation c v l) := by
  intro m
  have same := (keeps_path assigned).refl m
  cases l with
  | var name =>
    refine fromState ?_
    cases done : assignLocal name v m.current with
    | none => exact trapped trivial
    | some current =>
      cases p with
      | var name' => exact modified ⟨rfl, .assign (may name (located ▸ stores)) done⟩
      | field | element => cases located
  | field i name => exact modified same
  | element array i =>
    refine (writeElement_stores c array m i v).imp ?_ fun _ _ _ => trivial
    rintro _ m' ⟨id, k, index, bound, rfl⟩
    exact same

theorem performs_keep (op : AtomicOp) (name : String) (index : Option Value)
    (operands : List Int64) :
    Goes (Machine.Keeps assigned) (fun _ _ => True) (performAtomic c op name index operands) := by
  refine fun m => (performAtomic_replaces c name m op index operands).imp ?_ fun _ _ _ => trivial
  rintro _ m' ⟨id, k, s, i, after, result, found, bound, held, performed, rfl⟩
  exact (keeps_path assigned).refl m

/-- A frame of its own keeps what is below it, whatever is assigned in it. -/
theorem framed_restores {α : Type} {x : Comp α}
    (inner : Goes (Machine.Keeps fun _ => True) (fun _ _ => True) x) (params : Frame) :
    Goes Machine.Restores (fun _ _ => True) (framed params x) := by
  refine fun m => Ensures.framed ((inner _).mono ?_)
  rintro a m₁ ⟨marker, kept⟩
  have below := kept.drop_eq
  have size := kept.length_eq
  dsimp only at marker below size
  rw [length_append, Nat.add_sub_cancel, drop_left] at below
  refine ⟨?_, rfl⟩
  dsimp only
  rw [Machine.suspended, marker, size, length_append, Nat.add_sub_cancel, below]

/-- The expressions store into locals that may be assigned. -/
def MayAssign (assigned : String → Prop) (e : Expr) : Prop :=
  ∀ name, e.target? = some (.var name) → assigned name

/-- Any method may be invoked, and nothing is assigned by that. -/
theorem restores_enter (assigned : String → Prop) (method : Method) :
    Enters MayAssign (fun assigned {_} _ x => Goes (Machine.Keeps assigned) (fun _ _ => True) x)
      assigned method :=
  ⟨fun _ => True, fun _ _ _ _ => trivial, fun inner _ m =>
    (framed_restores inner _ m).mono fun _ _ restored => restored.keeps⟩

theorem stack_simulates (c : Context) : Simulates c c 0 MayAssign
    (fun assigned {_} _ x => Goes (Machine.Keeps assigned) (fun _ _ => True) x)
    fun assigned {_} _ x => Goes (Machine.Grows assigned) (fun _ _ => True) x where
  descriptor := rfl
  exprs assigned := (keeps_path assigned).sequenced
  stmts assigned := (grows_path assigned).sequenced
  widen went m := (went m).mono fun _ _ => .grows
  write v may stores located := writes_keep v may stores located
  perform index operands _ := performs_keep _ _ index operands
  declare assigned name v m := modified ⟨rfl, by
    dsimp only
    rw [length_cons, Nat.add_sub_cancel_left]
    exact .refl _ m.locals⟩
  enclosed inner m := Ensures.enclosed (inner m)
  callee _ _ := restores_enter _ _

/-- A call that completes leaves the marker and all locals as they were, those of the running and of
the waiting methods. A block or a `for` that completes, in whichever way it was left, leaves the
marker and the names of all locals as they were, and the values too but for those of locals of the
running method that an assignment in the text of the block or the `for` names. -/
theorem calls_and_blocks_keep_locals (c : Context) (n : Nat) (m m' : Machine) :
    (∀ method args result, invoke c n method args m = .ok result m' →
      m'.locals = m.locals ∧ m'.frame = m.frame) ∧
    (∀ body flow, block c n body m = .ok flow m' → m.Keeps (Assigns (Stmt.allNodes body)) m') ∧
    ∀ init cond update body flow, let loop := Stmt.forLoop init cond update body
      stmt c n loop m = .ok flow m' → m.Keeps (Assigns loop.nodes) m' := by
  have kept := (stack_simulates c).alike
  have named {nodes : List Expr} : ∀ x ∈ nodes, MayAssign (Assigns nodes) x :=
    fun x member name stores => ⟨x, member, stores⟩
  refine ⟨fun method args result ended => ?_, fun body flow ended =>
    ((kept n).blocks named m).of_ok ended, ?_⟩
  · exact (((kept n).invocation (restores_enter _ method) args m).of_ok ended).restores
  · intro init cond update body flow loop ended
    cases n with
    | zero => cases ended
    | succ n => exact ((kept n).for_succ (stack_simulates c) named m).of_ok ended

/-- Returns its parameter from a block in a loop, each of which declares a local. -/
def leavingMethod : Method where
  name := "leave"
  params := [⟨"i", .int⟩]
  ret := some .int
  body := [.whileLoop (.literal (.boolean true)) [.declare "k" .int (some (.var "i")),
    .block [.declare "i" .int none, .ret (some (.var "k"))]]]

/-- A call that is left from two blocks at once, and a `for` whose body assigns to a local outside and
breaks off. -/
theorem left_blocks_keep_locals :
    let c : Context := ⟨⟨"Leave", [], { name := "run", body := [] }, [leavingMethod]⟩, [],
      ⟨⟨0, 0, 0⟩, ⟨1, 1, 1⟩, ⟨1, 1, 1⟩, 0⟩⟩
    let m : Machine := ⟨{}, [], [("j", .int 2), ("i", .int 1), ("i", .int 3)], 1⟩
    let loop : Stmt := .forLoop [.declare "j" .int (some (.int 7))] none []
      [.expr (.assign (.var "i") none (.var "j")), .breakLoop]
    (∃ m', invoke c 18 leavingMethod [.int 7] m = .ok (some (.int 7)) m' ∧ m'.locals = m.locals ∧
      m'.frame = m.frame) ∧
    ∃ m', stmt c 9 loop m = .ok .normal m' ∧
      m'.locals = [("j", .int 2), ("i", .int 7), ("i", .int 3)] ∧ m.Keeps (Assigns loop.nodes) m' := by
  intro c m loop
  have left : invoke c 18 leavingMethod [.int 7] m = .ok (some (.int 7)) m := rfl
  have looped : stmt c 9 loop m =
      .ok .normal { m with locals := [("j", .int 2), ("i", .int 7), ("i", .int 3)] } := rfl
  exact ⟨⟨m, left, (calls_and_blocks_keep_locals c 18 m m).1 _ _ _ left⟩,
    ⟨_, looped, rfl, (calls_and_blocks_keep_locals c 9 m _).2.2 _ _ _ _ _ looped⟩⟩

end GridKernel.Eval
