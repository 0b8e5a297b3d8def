import GridKernel.Proofs.Target.Closed

/-!
# Names are declared once

A block of a target program is a block of the kernel, in which the checker keeps the locals apart,
or the block around the body of the entry method. So no block declares a name twice, and none
declares a parameter again. What the checker leaves open are the parameters of a helper, which it
does not compare with each other, and the name of the kernel function.
-/

namespace GridKernel.Target

open List

/-! ## Functions -/

/-- The names of a function: its own, those of its parameters, and those that its outermost block
and each block inside declare. -/
structure FunctionNames where
  function : String
  params : List String
  outermost : List String
  inside : List (List String)

/-- The names that the block of a method's body declares, temporaries first. -/
def Body.blockNames (b : Body) : List String :=
  (List.range b.temps.length).map tempName ++ Target.blockNames b.stmts

def Helper.names (stem : String) (h : Helper) : FunctionNames :=
  ⟨helperName stem h.method, "this" :: h.params.map Param.name, h.body.blockNames,
    Stmt.allBlocks h.body.stmts⟩

/-- The names of the functions that are defined. The kernel function takes the members of the state
and declares the state around the block of the entry method. -/
def Program.names (p : Program) : List FunctionNames :=
  ⟨"get_pass_id", ["this"], [], []⟩ :: p.helpers.map (Helper.names p.stem) ++
    [⟨p.entry, p.members.map Member.name, ["thisStruct", "this"],
      p.body.blockNames :: Stmt.allBlocks p.body.stmts⟩]

/-- Functions have different names, the parameters of a function have different names, and no block
declares a name twice, where the parameters belong to the outermost block. -/
structure Program.Unique (p : Program) : Prop where
  functions : (p.names.map FunctionNames.function).Nodup
  params : ∀ f ∈ p.names, f.params.Nodup
  outermost : ∀ f ∈ p.names, (f.params ++ f.outermost).Nodup
  inside : ∀ f ∈ p.names, ∀ names ∈ f.inside, names.Nodup

/-- No block of the function declares a name twice or declares a parameter again. -/
structure FunctionNames.Apart (f : FunctionNames) : Prop where
  outermost : f.outermost.Nodup
  params : ∀ name ∈ f.params, name ∉ f.outermost
  inside : ∀ names ∈ f.inside, names.Nodup

theorem Body.nodup_blockNames {s s' : Scope} {b : Body} (h : DeclaresOnce s s' b.stmts) :
    b.blockNames.Nodup := by
  refine nodup_append'.mpr ⟨List.Nodup.map (fun _ _ same => tempName_injective same)
    nodup_range, h.distinct, fun name temp declared => ?_⟩
  obtain ⟨n, -, rfl⟩ := mem_map.mp temp
  simpa [not_isValid_tempName] using (h.fresh _ declared).2

theorem Body.not_mem_blockNames {s s' : Scope} {b : Body} (h : DeclaresOnce s s' b.stmts)
    {name : String} (own : ∀ n, tempName n ≠ name)
    (taken : name ∈ s.own ∨ Name.isValid name = false) : name ∉ b.blockNames := by
  intro member
  rcases mem_append.mp member with temp | declared
  · obtain ⟨n, -, same⟩ := mem_map.mp temp
    exact own n same
  · obtain ⟨fresh, valid⟩ := h.fresh name declared
    rcases taken with inScope | invalid
    · exact fresh inScope
    · simp [invalid] at valid

section

variable {s : Schema} {p : Program} (built : s.build = .ok d) (emits : program d = .ok p)
include built emits

theorem names_apart (checked : Typing.check d = .ok ()) : ∀ f ∈ p.names, f.Apart := by
  obtain ⟨-, members, -, -, main⟩ := program_eq_ok emits
  have face := interface_of_program built emits
  have this : ∀ n, tempName n ≠ "this" := fun n same =>
    tempName_not_member built n (same ▸ by simp)
  refine forall_mem_cons.mpr ⟨⟨nodup_nil, nofun, nofun⟩, ?_⟩
  refine forall_mem_append.mpr ⟨forall_mem_map.mpr fun h member => ?_,
    forall_mem_singleton.mpr ?_⟩
  · obtain ⟨m, declared, made⟩ := method_of_helper emits member
    obtain ⟨-, -, params, body⟩ := helper_eq_ok made
    have inside : m ∈ d.methods := mem_cons_of_mem _ declared
    obtain ⟨s', -, once⟩ := body_formed checked face inside body
    refine ⟨Body.nodup_blockNames once, forall_mem_cons.mpr
      ⟨Body.not_mem_blockNames once this (.inr (by decide)), fun name given => ?_⟩, once.inside⟩
    rw [params] at given
    obtain ⟨q, parameter, rfl⟩ := mem_map.mp given
    refine Body.not_mem_blockNames once (fun n same => ?_) (.inl ?_)
    · have valid := params_valid checked inside q parameter
      rw [← same, not_isValid_tempName] at valid
      cases valid
    · rw [Scope.own_ofMethod]
      exact mem_reverse.mpr given
  · obtain ⟨s', -, once⟩ := body_formed checked face mem_cons_self main
    refine ⟨nodup_cons.mpr ⟨by simp, nodup_singleton _⟩, fun name given state => ?_,
      forall_mem_cons.mpr ⟨Body.nodup_blockNames once, once.inside⟩⟩
    have fixed : Name.isValid name = false ∧ Name.hasDoubleUnderscore name.toList = false ∧
        name ≠ "passid" := by
      rcases mem_pair.mp state with rfl | rfl <;> decide
    rw [members] at given
    rcases name_of_member given with ⟨f, declared, rfl | rfl⟩ | rfl
    · simp [Name.isValid_of_isValidField ((Schema.build_names built).2 f declared)] at fixed
    · simp [hasDoubleUnderscore_lengthName] at fixed
    · exact fixed.2.2 rfl

/-- The parameters of the other functions are different. -/
theorem params_apart (checked : Typing.check d = .ok ()) :
    ∀ f ∈ p.names, f.params.Nodup ∨ ∃ m ∈ d.helpers,
      f.params = "this" :: m.params.map Param.name ∧ ¬ (m.params.map Param.name).Nodup := by
  obtain ⟨-, members, -⟩ := program_eq_ok emits
  refine forall_mem_cons.mpr ⟨.inl (nodup_singleton _), ?_⟩
  refine forall_mem_append.mpr ⟨forall_mem_map.mpr fun h member => ?_,
    forall_mem_singleton.mpr (.inl (members ▸ names_nodup built))⟩
  obtain ⟨m, declared, made⟩ := method_of_helper emits member
  obtain ⟨-, -, params, -⟩ := helper_eq_ok made
  by_cases distinct : (m.params.map Param.name).Nodup
  · refine .inl (nodup_cons.mpr ⟨fun given => ?_, params ▸ distinct⟩)
    rw [params] at given
    obtain ⟨q, parameter, same⟩ := mem_map.mp given
    have valid := params_valid checked (mem_cons_of_mem _ declared) q parameter
    rw [same] at valid
    exact absurd valid (by decide)
  · exact .inr ⟨m, declared, params ▸ rfl, distinct⟩

theorem functions_apart :
    (p.names.map FunctionNames.function).dropLast.Nodup ∧
      ((p.names.map FunctionNames.function).Nodup ↔ d.entry ≠ "get_pass_id" ∧
        ∀ m ∈ d.helpers, helperName (stemOf d.name) m.name ≠ d.entry) := by
  obtain ⟨stem, -, entry, -⟩ := program_eq_ok emits
  have others : p.helpers.map (fun h => helperName p.stem h.method) =
      d.helpers.map fun m => helperName (stemOf d.name) m.name := by
    have mapped := congrArg (List.map (helperName (stemOf d.name))) (helpers_named emits)
    rw [stem]
    simpa [Function.comp_def] using mapped
  have names : p.names.map FunctionNames.function = ("get_pass_id" ::
      d.helpers.map fun m => helperName (stemOf d.name) m.name) ++ [d.entry] := by
    rw [← others, ← entry]
    simp [Program.names, Helper.names, Function.comp_def]
  have before : ("get_pass_id" ::
      d.helpers.map fun m => helperName (stemOf d.name) m.name).Nodup := by
    have distinct := helperNames_nodup (helpers_nodup built emits)
    refine nodup_cons.mpr ⟨fun member => ?_, others ▸ distinct⟩
    obtain ⟨m, -, same⟩ := mem_map.mp member
    exact query_ne_helperName _ _ same.symm
  rw [names, dropLast_concat, nodup_append']
  refine ⟨before, ?_⟩
  simp [before, eq_comm]

end

/-- A checked kernel is compiled to a program in which the functions other than the kernel function
have different names, no block declares a name twice or declares a parameter again, and the
parameters of a function are different, except those of a helper whose parameters the kernel gives
one name. So all names are declared once exactly if no helper has such parameters and the kernel
function has the name of no other function. -/
theorem declarations_unique {s : Schema} {d : Descriptor} (built : s.build = .ok d)
    (checked : Typing.check d = .ok ()) :
    ∃ p, program d = .ok p ∧ d.compile = .ok ⟨d.entry, p.text⟩ ∧
      p.names.map FunctionNames.function = p.definitions.map Prod.fst ∧
      (p.names.map FunctionNames.function).dropLast.Nodup ∧ (∀ f ∈ p.names, f.Apart) ∧
      (∀ f ∈ p.names, f.params.Nodup ∨ ∃ m ∈ d.helpers,
        f.params = "this" :: m.params.map Param.name ∧ ¬ (m.params.map Param.name).Nodup) ∧
      (p.Unique ↔ d.entry ≠ "get_pass_id" ∧ ∀ m ∈ d.helpers,
        helperName (stemOf d.name) m.name ≠ d.entry ∧ (m.params.map Param.name).Nodup) := by
  obtain ⟨p, emits⟩ := program_of_checked checked
  obtain ⟨others, functions⟩ := functions_apart built emits
  have apart := names_apart built emits checked
  have params := params_apart built emits checked
  refine ⟨p, emits, compile_of_program checked emits, ?_, others, apart, params, ?_, ?_⟩
  · simp [Program.names, Program.definitions, Program.prototypes, Helper.names, Function.comp_def]
  · intro unique
    obtain ⟨query, each⟩ := functions.mp unique.functions
    refine ⟨query, fun m declared => ⟨each m declared, ?_⟩⟩
    obtain ⟨h, member, made⟩ := helper_of_method emits declared
    obtain ⟨-, -, same, -⟩ := helper_eq_ok made
    have own : h.names p.stem ∈ p.names :=
      mem_append_left _ (mem_cons_of_mem _ (mem_map_of_mem member))
    exact same ▸ (nodup_cons.mp (unique.params _ own)).2
  · rintro ⟨query, each⟩
    have distinct : ∀ f ∈ p.names, f.params.Nodup := by
      intro f member
      rcases params f member with distinct | ⟨m, declared, -, repeated⟩
      · exact distinct
      · exact absurd (each m declared).2 repeated
    exact ⟨functions.mpr ⟨query, fun m declared => (each m declared).1⟩, distinct,
      fun f member => nodup_append'.mpr
        ⟨distinct f member, (apart f member).outermost, (apart f member).params⟩,
      fun f member => (apart f member).inside⟩

/-- A local behind another one of its name is in a block of its own. -/
theorem shadowing_declares_once :
    shadowedSchema.build = .ok shadowedKernel ∧ Typing.check shadowedKernel = .ok () ∧
      ∃ p, program shadowedKernel = .ok p ∧ p.Unique ∧
        p.names.map FunctionNames.inside = [[], [], [["x"], ["x"]]] := by
  have built : shadowedSchema.build = .ok shadowedKernel := rfl
  have checked : Typing.check shadowedKernel = .ok () := by decide
  obtain ⟨p, emits, -, -, -, -, -, unique⟩ := declarations_unique built checked
  have inside : p.names.map FunctionNames.inside = [[], [], [["x"], ["x"]]] := by
    cases emits
    decide
  exact ⟨built, checked, p, emits, unique.mpr (by decide), inside⟩

/-! ### Parameters of one name -/

/-- A kernel whose method `f` has two parameters `x`. -/
def repeatedSchema : Schema where
  name := "K"
  methods := [{ name := "run", body := [.expr (.call "f" [.int 1, .int 2])] },
    { name := "f", params := [⟨"x", .int⟩, ⟨"x", .int⟩], body := [] }]

def repeatedKernel : Descriptor where
  name := "K"
  fields := []
  main := { name := "run", body := [.expr (.call "f" [.int 1, .int 2])] }
  helpers := [{ name := "f", params := [⟨"x", .int⟩, ⟨"x", .int⟩], body := [] }]

/-- Two parameters of one name are accepted, and so is an entry point with the name of a helper's
function. -/
theorem names_declared_twice :
    (repeatedSchema.build = .ok repeatedKernel ∧ Typing.check repeatedKernel = .ok () ∧
      ∃ p, program repeatedKernel = .ok p ∧ ¬ p.Unique ∧
        p.names.map FunctionNames.params = [["this"], ["this", "x", "x"], ["passid"]]) ∧
    clashingSchema.build = .ok clashingKernel ∧ Typing.check clashingKernel = .ok () ∧
      ∃ p, program clashingKernel = .ok p ∧ ¬ p.Unique ∧
        p.names.map FunctionNames.function = ["get_pass_id", "K__f", "K__f"] := by
  refine ⟨⟨rfl, by decide, _, rfl, fun unique => ?_, by decide⟩,
    rfl, by decide, _, rfl, fun unique => ?_, by decide⟩
  · exact absurd unique.params (by decide)
  · exact absurd unique.functions (by decide)

end GridKernel.Target
