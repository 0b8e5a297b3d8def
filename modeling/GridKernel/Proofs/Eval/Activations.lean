import GridKernel.Proofs.Eval.Halting
import GridKernel.Proofs.Eval.Mirror
import GridKernel.Proofs.Kernel.Linearize
import Mathlib

/-!
# Active invocations

A descriptor that was built has no recursion, so its methods have ranks that decrease along calls.
The rank of a method bounds how deep calls nest below it, and without loops it bounds how long they
take.
-/

namespace GridKernel

open Relation List

namespace CallGraph

variable {methods : List Method} {a : String}

open Classical in
/-- The number of methods that are called from a method, directly or through others. -/
noncomputable def rank (methods : List Method) (a : String) : Nat :=
  ((methods.map Method.name).toFinset.filter (TransGen (Calls methods) a)).card

open Classical in
theorem rank_lt_of_calls (calls : Calls methods a b) (declared : Declared methods b)
    (acyclic : ¬TransGen (Calls methods) b b) : rank methods b < rank methods a := by
  apply Finset.card_lt_card
  rw [Finset.ssubset_iff_of_subset]
  · obtain ⟨m, member, rfl⟩ := declared
    refine ⟨m.name, Finset.mem_filter.mpr ⟨?_, .single calls⟩, ?_⟩
    · exact mem_toFinset.mpr (mem_map_of_mem member)
    · exact fun inside => acyclic (Finset.mem_filter.mp inside).2
  · intro c inside
    obtain ⟨listed, reached⟩ := Finset.mem_filter.mp inside
    exact Finset.mem_filter.mpr ⟨listed, .head calls reached⟩

open Classical in
theorem rank_lt_length (declared : Declared methods a) (acyclic : ¬TransGen (Calls methods) a a) :
    rank methods a < methods.length := by
  obtain ⟨m, member, rfl⟩ := declared
  have smaller : rank methods m.name < (methods.map Method.name).toFinset.card := by
    apply Finset.card_lt_card
    rw [Finset.filter_ssubset]
    exact ⟨m.name, mem_toFinset.mpr (mem_map_of_mem member), acyclic⟩
  calc rank methods m.name
    _ < (methods.map Method.name).toFinset.card := smaller
    _ ≤ (methods.map Method.name).length := toFinset_card_le _
    _ = methods.length := length_map _

end CallGraph

namespace Eval

open CallGraph

variable {c : Context}

/-- No method of the kernel reaches itself. -/
def NoRecursion (d : Descriptor) : Prop :=
  ∀ m ∈ d.methods, ¬TransGen (Calls d.methods) m.name m.name

variable {d : Descriptor}

theorem mem_of_method? (found : d.method? name = some m) : m ∈ d.methods ∧ m.name = name := by
  have named := find?_some found
  exact ⟨mem_of_find?_eq_some found, eq_of_beq named⟩

/-- A callee ranks below its caller. -/
theorem NoRecursion.rank_lt (h : NoRecursion d) (member : m ∈ d.methods) (calls : m.Calls name)
    (found : d.method? name = some callee) :
    callee ∈ d.methods ∧ rank d.methods callee.name < rank d.methods m.name := by
  obtain ⟨inside, rfl⟩ := mem_of_method? found
  exact ⟨inside, rank_lt_of_calls ⟨m, member, rfl, calls⟩ ⟨callee, inside, rfl⟩ (h callee inside)⟩

theorem callsOnly_body (m : Method) : CallsOnly m.Calls (Stmt.allNodes m.body) := by
  intro e member name called
  obtain ⟨args, rfl⟩ := Expr.callee?_eq_some.mp called
  exact ⟨args, member⟩

/-- With `active` invocations the computation does what the evaluator does, and there are never more
than `limit` of them. -/
def Within (limit active : Nat) {α : Type} (w : Watched α) (x : Comp α) : Prop :=
  active ≤ limit → ∀ m, (w active m).1 = x m ∧ ∀ s ∈ (w active m).2, s.active ≤ limit

namespace Within

variable {limit active : Nat} {α β : Type}

theorem observed {accesses : Machine → List Access} {x : Comp α} :
    Within limit active (Watched.observe accesses x) x :=
  fun room _ => ⟨rfl, forall_mem_singleton.mpr room⟩

theorem andThen {w : Watched α} {x : Comp α} {f : α → Watched β} {g : α → Comp β}
    (first : Within limit active w x)
    (next : ∀ a, (∃ m m', x m = .ok a m') → Within limit active (f a) (g a)) :
    Within limit active (w >>= f) (x >>= g) := by
  intro room m
  obtain ⟨same, seen⟩ := first room m
  change (Watched.bind w f active m).1 = EStateM.bind x g m ∧
    ∀ s ∈ (Watched.bind w f active m).2, s.active ≤ limit
  unfold Watched.bind EStateM.bind
  generalize w active m = pair at same seen
  obtain ⟨ending, before⟩ := pair
  subst same
  cases ended : x m with
  | ok a m' =>
    obtain ⟨same, later⟩ := next a ⟨m, m', ended⟩ room m'
    exact ⟨same, forall_mem_append.mpr ⟨seen, later⟩⟩
  | error stop m' => exact ⟨rfl, seen⟩

/-- A frame is one invocation more. -/
theorem framed {w : Watched α} {x : Comp α} (h : Within limit (active + 1) w x)
    (room : active + 1 ≤ limit) (params : Frame) :
    Within limit active (w.framed params) (Eval.framed params x) :=
  andThen observed fun _ _ => andThen observed fun _ _ => andThen (fun _ => h room) fun _ _ =>
    andThen observed fun _ _ => observed

theorem sequenced : Sequenced c c 0 (Within limit active) where
  ask q := by
    cases q with
    | reads l => cases l <;> exact observed
    | _ => exact observed
  andThenOf := andThen
  outOfSteps spent := spent rfl ▸ observed

end Within

/-- The methods that an expression calls rank so low that the active invocations stay in the limit. -/
def RanksLow (d : Descriptor) (limit active : Nat) (e : Expr) : Prop :=
  ∀ name callee, e.callee? = some name → d.method? name = some callee →
    active + rank d.methods callee.name < limit

/-- The rank of a method is enough room for what it calls. -/
theorem NoRecursion.enters {limit active : Nat} (h : NoRecursion c.descriptor) {m : Method}
    (member : m ∈ c.descriptor.methods)
    (low : active + rank c.descriptor.methods m.name < limit) :
    Enters (RanksLow c.descriptor limit) (Within limit) active m := by
  refine ⟨active + 1, fun e inside name callee called found => ?_,
    fun inner _ => inner.framed (by omega) _⟩
  obtain ⟨args, rfl⟩ := Expr.callee?_eq_some.mp called
  have lower := (h.rank_lt member ⟨args, inside⟩ found).2
  omega

theorem NoRecursion.simulates (h : NoRecursion c.descriptor) (limit : Nat) :
    Simulates c c 0 (RanksLow c.descriptor limit) (Within limit) (Within limit) where
  descriptor := rfl
  exprs _ := Within.sequenced
  stmts _ := Within.sequenced
  widen inner := inner
  write {_ _ _ l} _ _ _ _ := by cases l <;> exact .observed
  perform _ _ _ := .observed
  declare _ _ _ := .observed
  enclosed inner := .andThen .observed fun _ _ => .andThen inner fun _ _ =>
    .andThen .observed fun _ _ => .observed
  callee low found := h.enters (mem_of_method? found).1 (low _ _ rfl found)

/-- The size of a kernel's largest method, or more. -/
noncomputable def textSize (d : Descriptor) : Nat := (d.methods.map fun m => sizeOf m.body).sum

theorem size_le_textSize (member : m ∈ d.methods) : sizeOf m.body ≤ textSize d :=
  single_le_sum (fun _ _ => Nat.zero_le _) _ (mem_map_of_mem member)

/-- Without loops an invocation ends after steps that its rank and the size of the kernel bound. -/
theorem NoRecursion.finishes (h : NoRecursion c.descriptor)
    (loopless : ∀ m ∈ c.descriptor.methods, Loopless (Stmt.flattenAll m.body)) :
    ∀ {m : Method}, m ∈ c.descriptor.methods → rank c.descriptor.methods m.name < r →
      ∀ n args, r * (2 * textSize c.descriptor + 3) ≤ n → Finishes (invoke c n m args) := by
  induction r with
  | zero =>
    intro m member low
    omega
  | succ r ih =>
    intro m member low n args enough
    have size := size_le_textSize member
    rw [Nat.succ_mul] at enough
    generalize r * (2 * textSize c.descriptor + 3) = budget at ih enough
    have body : ∀ k, Halting c budget m.Calls k := by
      refine halting ?_
      intro name called callee found
      have callee := h.rank_lt member called found
      exact ih callee.1 (by omega)
    have inner : ∀ k, 2 * sizeOf m.body + budget + 1 < k → Finishes (block c k m.body) :=
      fun k more => (body k).blocks (callsOnly_body m) (loopless m member) more
    exact invoke_finishes inner (by omega) args

theorem noRecursion_of_built {s : Schema} (built : s.build = .ok d) : NoRecursion d := by
  obtain ⟨ordered, acyclic⟩ := ordered_of_built built
  intro m member cycle
  have fewer : ∀ a b, Calls d.methods a b → Calls s.methods a b := by
    rintro a b ⟨m, member, calls⟩
    exact ⟨m, ((ordered.exactly m).mp member).1, calls⟩
  exact acyclic m.name ((ordered.exactly m).mp member).2 (TransGen.mono fewer _ _ cycle)

/-- Once an invocation of the entry point ends, more steps make no difference. -/
theorem run_settled (ends : Finishes (invoke c enough c.descriptor.main [])) (memory) :
    (run c enough memory).2 ≠ some .exhausted ∧
      ∀ steps, enough ≤ steps → run c steps memory = run c enough memory := by
  have ending := ends { memory := memory }
  constructor
  · unfold run
    unfold Ensures at ending
    cases ended : invoke c enough c.descriptor.main [] { memory := memory } with
    | ok result m => simp
    | error stop m =>
      rw [ended] at ending
      simpa using ending
  · intro steps more
    unfold run
    rw [invoke_settled more fun last spent => ending.of_error spent rfl]

/-- At every moment of every run there are at most as many active invocations as the entry point
reaches methods, and if none of these has a loop then every run ends: after a number of steps that
the kernel alone decides, whatever its fields are bound to and wherever the work-item is. -/
theorem active_calls_bounded {s : Schema} {d : Descriptor} (built : s.build = .ok d) :
    (d.methods.Nodup ∧ ∀ m, m ∈ d.methods ↔
      m ∈ s.methods ∧ ReflTransGen (Calls s.methods) s.entry m.name) ∧
    (∀ c steps memory, c.descriptor = d →
      (Watched.invoke c steps d.main [] 0 { memory := memory }).1 =
        invoke c steps d.main [] { memory := memory } ∧
      ∀ moment ∈ moments c steps memory, moment.active ≤ d.methods.length) ∧
    ((∀ m ∈ d.methods, Loopless (Stmt.flattenAll m.body)) →
      ∃ enough, ∀ c memory, c.descriptor = d → (run c enough memory).2 ≠ some .exhausted ∧
        ∀ steps, enough ≤ steps → run c steps memory = run c enough memory) := by
  obtain ⟨ordered, -⟩ := ordered_of_built built
  have acyclic := noRecursion_of_built built
  have first : d.main ∈ d.methods := mem_cons_self
  have low : rank d.methods d.main.name < d.methods.length :=
    rank_lt_length ⟨d.main, first, rfl⟩ (acyclic d.main first)
  refine ⟨⟨ordered.once.of_map _, ordered.exactly⟩, ?_, ?_⟩
  · rintro c steps memory rfl
    have entered := acyclic.enters first (by rwa [Nat.zero_add])
    exact ((acyclic.simulates _).alike steps).invocation entered [] (Nat.zero_le _) { memory := memory }
  · intro loopless
    refine ⟨d.methods.length * (2 * textSize d + 3), ?_⟩
    rintro c memory rfl
    exact run_settled (acyclic.finishes loopless first low _ [] (Nat.le_refl _)) memory

def innerHelper : Method where
  name := "inner"
  params := [⟨"x", .int⟩]
  ret := some .int
  body := [.ret (some (.var "x"))]

def outerHelper : Method where
  name := "outer"
  params := [⟨"x", .int⟩]
  ret := some .int
  body := [.ret (some (.call "inner" [.var "x"]))]

/-- `a[outer(inner(1))] = outer(0);`, with calls in an index and in an argument. -/
def nestingMain : Method where
  name := "run"
  body := [.expr (.assign (.element "a" (.call "outer" [.call "inner" [.int 1]])) none
    (.call "outer" [.int 0]))]

def nestingSchema : Schema where
  name := "Nesting"
  fields := [{ name := "a", type := .scalar .int, shape := .array }]
  methods := [innerHelper, nestingMain, outerHelper]

def nestingKernel : Descriptor where
  name := "Nesting"
  fields := [⟨"a", .scalar .int, .array, .global, .readWrite⟩]
  main := nestingMain
  helpers := [outerHelper, innerHelper]

def nestingContext : Context where
  descriptor := nestingKernel
  bound := [.array 0]
  item := ⟨⟨0, 0, 0⟩, ⟨1, 1, 1⟩, ⟨1, 1, 1⟩, 0⟩

/-- Three methods, and at some moment three active invocations. -/
theorem nested_calls_end :
    nestingSchema.build = .ok nestingKernel ∧
      ((moments nestingContext 20 { buffers := #[⟨.int, #[7, 7]⟩] }).map Moment.active).max? =
        some 3 ∧
      (∀ moment ∈ moments nestingContext 20 { buffers := #[⟨.int, #[7, 7]⟩] }, moment.active ≤ 3) ∧
      ∃ enough, ∀ memory, (run nestingContext enough memory).2 ≠ some .exhausted := by
  have built : nestingSchema.build = .ok nestingKernel := rfl
  obtain ⟨-, bounded, ends⟩ := active_calls_bounded built
  have loopless : ∀ m ∈ nestingKernel.methods, Loopless (Stmt.flattenAll m.body) := by
    unfold Loopless
    decide
  obtain ⟨enough, settled⟩ := ends loopless
  exact ⟨built, by decide +kernel, (bounded nestingContext 20 _ rfl).2, enough,
    fun memory => (settled nestingContext memory rfl).1⟩

end Eval

end GridKernel
