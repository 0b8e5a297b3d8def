import GridKernel.Proofs.Kernel.Linearize
import GridKernel.Proofs.Target.BodyFits
import GridKernel.Proofs.Target.Names
import GridKernel.Proofs.Target.Totality

/-!
# Programs are closed

In the program that a checked kernel is compiled to, members, helpers and temporaries are declared
where they are used, with the types that they are used at, and a temporary is written before it is
read. There are two exceptions. A helper whose function has the name of the entry point has two
definitions. And an initializer that mentions the local that it initializes has other types in C
than in the kernel, since there the local is in sight.
-/

namespace GridKernel.Target

open List Outcome

/-! ## What a program declares and uses -/

/-- A function of a program: its parameters, the other names in sight around its body, and the
body. -/
structure Function where
  params : List Param
  outer : List String
  body : Body

/-- The functions of the helpers and the kernel function. The parameters of the kernel function are
the members of the state. -/
def Program.functions (p : Program) : List Function :=
  p.helpers.map (fun h => ⟨h.params, ["this"], h.body⟩) ++
    [⟨[], p.members.map Member.name ++ ["thisStruct", "this"], p.body⟩]

namespace Function

/-- The locals that the body starts with. -/
def env (f : Function) : ScopeFrame := (f.params.map fun q => (q.name, q.type)).reverse

/-- Every expression in the function, with the locals in sight there. -/
def sites (early : Bool) (f : Function) : List Site :=
  (Stmt.allSites early f.env f.body.stmts).flatMap fun site => site.2.nodes.map (Prod.mk site.1)

/-- The names of the variables that the function declares, its temporaries first. -/
def declared (f : Function) : List String :=
  (List.range f.body.temps.length).map tempName ++
    (f.outer ++ (f.params.map Param.name ++ Stmt.allDeclared f.body.stmts))

/-- The temporaries that stores in the function are into, each as often as there is one. -/
def assigned (f : Function) : List Nat :=
  (Stmt.allSites false f.env f.body.stmts).flatMap (·.2.assigned)

end Function

/-- The member that an expression accesses. -/
def Expr.memberName? : Expr → Option String
  | .member name => some name
  | .lengthOf array => some (lengthName array)
  | .element array _ | .addressOf array _ => some array
  | _ => none

/-- The names of the functions that have prototypes, with the texts of the prototypes. -/
def Program.prototypes (p : Program) : List (String × String) :=
  p.helpers.map fun h => (helperName p.stem h.method, h.signature p.stem)

/-- The names of the functions that are defined, with the texts of the heads of the definitions. -/
def Program.definitions (p : Program) : List (String × String) :=
  ("get_pass_id", "int get_pass_id(This *this)") :: p.prototypes ++
    [(p.entry, "__kernel void " ++ p.entry ++ "(")]

/-- The parts with this name. -/
def named (name : String) (l : List (String × String)) : List String :=
  (l.filter (·.1 == name)).map Prod.snd

/-- What the function uses is declared, and is used as it is declared. -/
structure Function.Resolved (p : Program) (early : Bool) (f : Function) : Prop where
  members : ∀ site ∈ f.sites early, ∀ name, site.2.memberName? = some name →
    name ∈ p.members.map Member.name
  calls : ∀ site ∈ f.sites early, ∀ method args, site.2 = .call (.helper method) args →
    ∃ h ∈ p.helpers, h.method = method ∧ args.length = h.params.length ∧
      Expr.kinds? p f.body.temps site.1 args = some (h.params.map fun q => .scalar q.type)
  temps : ∀ site ∈ f.sites early, ∀ n, site.2 = .temp n → n < f.body.temps.length
  stores : ∀ site ∈ f.sites early, ∀ n value, site.2 = .assign (.temp n) value →
    ∃ t, f.body.temps[n]? = some t ∧ value.kind? p f.body.temps site.1 = some (.scalar t)

/-- The temporaries of the function are declared once and stored into once, and on every path each
is written before it is read. -/
structure Function.KeepsTemps (f : Function) : Prop where
  declared : ∀ n < f.body.temps.length, f.declared.count (tempName n) = 1
  assigned : f.assigned.Perm (List.range f.body.temps.length)
  first : ∀ path w, Stmt.BodyPath f.body.stmts path w → ∀ before n after,
    path = before ++ .read n :: after → .write n ∈ before

/-! ## The interface of a program -/

variable {name : String} {m : Method} {h : Helper}

section

variable {p : Program}

theorem find?_of_nodup {α : Type} {name : α → String} {l : List α} (distinct : (l.map name).Nodup)
    {a : α} (member : a ∈ l) : l.find? (name · == name a) = some a := by
  cases found : l.find? (name · == name a) with
  | none => exact absurd (find?_eq_none.mp found a member) (by simp)
  | some b =>
    have same : name b = name a := by simpa using find?_some found
    rw [inj_on_of_nodup_map distinct (mem_of_find?_eq_some found) member same]

theorem related_of_mem {R : α → β → Prop} (each : List.Forall₂ R as bs) (member : a ∈ as) :
    ∃ b ∈ bs, R a b := by
  induction each with
  | nil => cases member
  | cons related _ ih =>
    rcases mem_cons.mp member with rfl | member
    · exact ⟨_, mem_cons_self, related⟩
    · obtain ⟨b, inside, related⟩ := ih member
      exact ⟨b, mem_cons_of_mem _ inside, related⟩

theorem helper_eq_ok (emits : helper d m = .ok h) :
    h.method = m.name ∧ h.ret = m.ret ∧ h.params = m.params ∧ methodBody d m = .ok h.body := by
  obtain ⟨b, body, ended⟩ := bind_eq_ok.mp emits
  obtain rfl := pure_eq_ok.mp ended
  exact ⟨rfl, rfl, rfl, body⟩

section

variable (emits : program d = .ok p)
include emits

theorem program_eq_ok :
    p.stem = stemOf d.name ∧ p.members = members d ∧ p.entry = d.entry ∧
      d.helpers.mapM (helper d) = .ok p.helpers ∧ methodBody d d.main = .ok p.body := by
  obtain ⟨helpers, others, emits⟩ := bind_eq_ok.mp emits
  obtain ⟨body, main, emits⟩ := bind_eq_ok.mp emits
  obtain rfl := pure_eq_ok.mp emits
  exact ⟨rfl, rfl, rfl, others, main⟩

/-- Each helper is the translation of a method. -/
theorem helpers_translated :
    List.Forall₂ (fun m h => helper d m = .ok h) d.helpers p.helpers := by
  obtain ⟨-, -, -, others, -⟩ := program_eq_ok emits
  obtain ⟨count, each⟩ := mapM_eq_ok others
  refine forall₂_iff_get.mpr ⟨count.symm, fun i first second => ?_⟩
  obtain ⟨h, found, made⟩ := each (getElem?_eq_getElem first)
  rw [getElem?_eq_getElem second] at found
  cases found
  exact made

theorem helper_of_method (member : m ∈ d.helpers) : ∃ h ∈ p.helpers, helper d m = .ok h :=
  related_of_mem (helpers_translated emits) member

theorem method_of_helper (member : h ∈ p.helpers) : ∃ m ∈ d.helpers, helper d m = .ok h :=
  related_of_mem (helpers_translated emits).flip member

theorem helpers_named :
    p.helpers.map Helper.method = d.helpers.map Method.name := by
  have each := helpers_translated emits
  generalize d.helpers = methods at each ⊢
  generalize p.helpers = helpers at each ⊢
  induction each with
  | nil => rfl
  | cons made _ ih => rw [map_cons, map_cons, ih, (helper_eq_ok made).1]

end

variable {s : Schema} (built : s.build = .ok d) (emits : program d = .ok p)
include built emits

theorem member?_of_mem {m : Member} (member : m ∈ members d) : p.member? m.name = some m := by
  obtain ⟨-, same, -⟩ := program_eq_ok emits
  have distinct : (p.members.map Member.name).Nodup := same ▸ names_nodup built
  exact find?_of_nodup distinct (same ▸ member)

theorem member?_of_field (declared : d.field? name = some f) :
    p.member? name = some (fieldMember f) ∧ f.name = name := by
  have same : f.name = name := by simpa using find?_some declared
  have own : fieldMember f ∈ members d := by
    refine mem_append_left _ (mem_flatMap.mpr ⟨f, ?_, mem_cons_self⟩)
    exact mem_of_find?_eq_some declared
  have found := member?_of_mem built emits own
  rw [name_fieldMember, same] at found
  exact ⟨found, same⟩

theorem helpers_nodup : (p.helpers.map Helper.method).Nodup := by
  obtain ⟨ordered, -⟩ := CallGraph.ordered_of_built built
  have once := ordered.once
  rw [Descriptor.methods, map_cons, nodup_cons] at once
  rw [helpers_named emits]
  exact once.2

theorem interface_of_program : Interface p d where
  scalar := by
    intro name t typed
    obtain ⟨f, declared, single, element⟩ := Typing.scalarType_eq_ok.mp typed
    obtain ⟨found, rfl⟩ := member?_of_field built emits declared
    rw [found, fieldMember, element]
    cases shape : f.shape with
    | scalar => rfl
    | array => simp [Field.isArray, shape] at single
  array := by
    intro name t typed
    obtain ⟨f, declared, many, element⟩ := Typing.arrayType_eq_ok.mp typed
    obtain ⟨found, rfl⟩ := member?_of_field built emits declared
    refine ⟨f.space, ?_⟩
    rw [found, fieldMember, element, of_decide_eq_true many]
  slots := by
    intro name f w declared element
    obtain ⟨found, rfl⟩ := member?_of_field built emits declared
    refine ⟨f.scope, ?_⟩
    rw [found, fieldMember, element]
  length := by
    intro name f declared many reads
    obtain ⟨-, rfl⟩ := member?_of_field built emits declared
    have passes := Descriptor.passesLength_iff.mpr ⟨many, reads⟩
    have own : .length f.name ∈ members d := by
      refine mem_append_left _ (mem_flatMap.mpr ⟨f, ?_, ?_⟩)
      · exact mem_of_find?_eq_some declared
      · rw [if_pos passes]
        exact mem_cons_of_mem _ mem_cons_self
    exact member?_of_mem built emits own
  helper := by
    intro name m found apart
    have same : m.name = name := by simpa using find?_some found
    have inside : m ∈ d.helpers := by
      rcases mem_cons.mp (mem_of_find?_eq_some found) with main | inside
      · exact absurd (congrArg Method.name main) apart
      · exact inside
    obtain ⟨h, member, made⟩ := helper_of_method emits inside
    obtain ⟨named, returns, params, -⟩ := helper_eq_ok made
    have known := find?_of_nodup (helpers_nodup built emits) member
    rw [named, same] at known
    exact ⟨h, known, params, returns⟩

end

/-! ## Functions -/

section

variable {p : Program} {f : Function}

theorem mem_names_of_member? {m : Member} (found : p.member? name = some m) :
    name ∈ p.members.map Member.name := by
  have same : m.name = name := by simpa using find?_some found
  exact mem_map.mpr ⟨m, mem_of_find?_eq_some found, same⟩

variable {env : ScopeFrame}

theorem member_declared {temps : Temps} {e : Expr} (typed : e.HasKind p temps env)
    (accessed : e.memberName? = some name) : name ∈ p.members.map Member.name := by
  obtain ⟨k, kind⟩ := typed
  cases e with
  | member _ | lengthOf _ =>
    cases accessed
    obtain ⟨m, found, -⟩ := Option.bind_eq_some_iff.mp kind
    exact mem_names_of_member? found
  | element _ _ | addressOf _ _ =>
    cases accessed
    rw [Expr.kind?, Option.ite_none_right_eq_some] at kind
    obtain ⟨m, found, -⟩ := Option.bind_eq_some_iff.mp kind.2
    exact mem_names_of_member? found
  | _ => cases accessed

theorem helper_called (typed : (Expr.call (.helper method) args).HasKind p temps env) :
    ∃ h ∈ p.helpers, h.method = method ∧ args.length = h.params.length ∧
      Expr.kinds? p temps env args = some (h.params.map fun q => .scalar q.type) := by
  obtain ⟨k, kind⟩ := typed
  obtain ⟨ks, given, kind⟩ := Option.bind_eq_some_iff.mp kind
  obtain ⟨h, found, kind⟩ := Option.bind_eq_some_iff.mp kind
  rw [Option.ite_none_right_eq_some] at kind
  obtain ⟨rfl, -⟩ := kind
  have same : h.method = method := by simpa using find?_some found
  have count := Expr.length_of_kinds? given
  rw [length_map] at count
  exact ⟨h, mem_of_find?_eq_some found, same, count, given⟩

/-- The sites of a function whose statements are well typed. -/
theorem Function.sites_haveKind
    (typed : AllTyped p f.body.temps (Stmt.allSites early f.env f.body.stmts)) :
    ∀ site ∈ f.sites early, site.2.HasKind p f.body.temps site.1 := by
  intro site member
  obtain ⟨outer, listed, inside⟩ := mem_flatMap.mp member
  obtain ⟨e, part, rfl⟩ := mem_map.mp inside
  obtain ⟨k, kind⟩ := typed outer listed
  exact Expr.nodes_haveKind kind e part

theorem Function.resolved
    (typed : AllTyped p f.body.temps (Stmt.allSites early f.env f.body.stmts)) :
    f.Resolved p early := by
  have each := Function.sites_haveKind typed
  refine ⟨?_, ?_, ?_, ?_⟩
  · intro site member name accessed
    exact member_declared (each site member) accessed
  · rintro ⟨env, e⟩ member method args rfl
    exact helper_called (each _ member)
  · rintro ⟨env, e⟩ member n rfl
    obtain ⟨k, kind⟩ := each _ member
    obtain ⟨t, declared, -⟩ := Option.map_eq_some_iff.mp kind
    exact (List.getElem?_eq_some_iff.mp declared).1
  · rintro ⟨env, e⟩ member n value rfl
    obtain ⟨k, kind⟩ := each _ member
    obtain ⟨k₁, place, kind⟩ := Option.bind_eq_some_iff.mp kind
    obtain ⟨k₂, given, kind⟩ := Option.bind_eq_some_iff.mp kind
    obtain ⟨t, declared, rfl⟩ := Option.map_eq_some_iff.mp place
    refine ⟨t, declared, ?_⟩
    cases k₂ with
    | scalar u =>
      have same : u = t ∧ Kind.scalar t = k := by simpa [assignKind?, Expr.temp?] using kind
      rw [given, same.1]
    | _ => cases kind

/-- The temporaries of a function whose statements are formed. -/
theorem Function.keepsTemps
    (formed : FormedBody p f.body.temps f.env env names 0 f.body.temps.length f.body.stmts)
    (params : ∀ q ∈ f.params, Name.isValid q.name = true) (outer : ∀ n, tempName n ∉ f.outer) :
    f.KeepsTemps where
  declared := by
    intro n inRange
    have distinct : ((List.range f.body.temps.length).map tempName).Nodup :=
      List.Nodup.map (fun _ _ same => tempName_injective same) nodup_range
    have own : tempName n ∈ (List.range f.body.temps.length).map tempName :=
      mem_map_of_mem (mem_range.mpr inRange)
    have given : tempName n ∉ f.params.map Param.name := by
      intro member
      obtain ⟨q, inside, same⟩ := mem_map.mp member
      have valid := params q inside
      rw [same, not_isValid_tempName] at valid
      cases valid
    have locals : tempName n ∉ Stmt.allDeclared f.body.stmts := by
      intro member
      have valid := formed.valid _ (formed.declared ▸ member)
      rw [not_isValid_tempName] at valid
      cases valid
    rw [Function.declared, count_append, count_append, count_append,
      count_eq_one_of_mem distinct own, count_eq_zero.mpr (outer n),
      count_eq_zero.mpr given, count_eq_zero.mpr locals]
  assigned := by
    have whole := formed.placed.assigned
    rw [Nat.sub_zero, ← range_eq_range'] at whole
    exact whole
  first := by
    intro path w taken before n after split
    rcases (formed.safe.covered taken).write_before split with early | wrote
    · cases early
    · exact wrote

theorem body_formed (checked : Typing.check d = .ok ()) (face : Interface p d)
    (member : m ∈ d.methods) (made : methodBody d m = .ok b) :
    ∃ after, FormedBody p b.temps (m.params.map fun q => (q.name, q.type)).reverse after.names
      (Stmt.allLocals m.body) 0 b.temps.length b.stmts ∧
        DeclaresOnce (.ofMethod m) after b.stmts := by
  obtain ⟨⟨⟨out, after⟩, temps⟩, emitted, finished⟩ := bind_eq_ok.mp made
  cases finished
  obtain ⟨⟨s', body⟩, -⟩ := Typing.checkMethod_eq_ok (forM_eq_ok checked member)
  have lengths : LengthsIn d (Stmt.allNodes m.body) :=
    fun array inside => ⟨m, member, inside⟩
  obtain ⟨-, fits⟩ := body_fits checked face m.body body lengths _ _ _ emitted
  obtain ⟨formed, -, once⟩ := fits temps prefix_rfl
  rw [Scope.names_ofMethod] at formed
  exact ⟨_, formed, once⟩

/-- Each function is the translation of a method. -/
theorem method_of_function {s : Schema} (built : s.build = .ok d) (emits : program d = .ok p)
    (member : f ∈ p.functions) :
    ∃ m ∈ d.methods, f.params = m.params ∧ methodBody d m = .ok f.body := by
  rcases mem_append.mp member with helper | main
  · obtain ⟨h, inside, rfl⟩ := mem_map.mp helper
    obtain ⟨m, declared, made⟩ := method_of_helper emits inside
    obtain ⟨-, -, params, body⟩ := helper_eq_ok made
    exact ⟨m, mem_cons_of_mem _ declared, params, body⟩
  · obtain rfl := mem_singleton.mp main
    obtain ⟨-, -, -, -, body⟩ := program_eq_ok emits
    exact ⟨d.main, mem_cons_self, (Schema.build_main built).1.symm, body⟩

theorem params_valid (checked : Typing.check d = .ok ()) (member : m ∈ d.methods) :
    ∀ q ∈ m.params, Name.isValid q.name = true := by
  have own : Typing.checkMethod d m = .ok () := forM_eq_ok checked member
  unfold Typing.checkMethod at own
  split at own
  · cases own
  · rename_i none
    intro q inside
    simpa using find?_eq_none.mp none q inside

/-- The function of a checked method. -/
theorem Function.closed (checked : Typing.check d = .ok ()) (face : Interface p d)
    (member : m ∈ d.methods) (made : methodBody d m = .ok f.body) (params : f.params = m.params)
    (outer : ∀ n, tempName n ∉ f.outer) :
    f.KeepsTemps ∧ f.Resolved p false ∧
      (Stmt.anyDeclares initializesItself f.body.stmts = false → f.Resolved p true) := by
  obtain ⟨_, formed, -⟩ := body_formed checked face member made
  rw [← params] at formed
  refine ⟨Function.keepsTemps formed ?_ outer, Function.resolved formed.placed.typed, ?_⟩
  · rw [params]
    exact params_valid checked member
  · intro apart
    exact Function.resolved (Stmt.allSites_typed _ _ apart formed.placed.typed)

end

theorem name_of_member (member : name ∈ (members d).map Member.name) :
    (∃ f ∈ d.fields, name = f.name ∨ name = lengthName f.name) ∨ name = "passid" := by
  rw [members, map_append, mem_append] at member
  rcases member with inside | last
  · rw [map_flatMap] at inside
    obtain ⟨f, declared, own⟩ := mem_flatMap.mp inside
    exact .inl ⟨f, declared, name_of_field own⟩
  · exact .inr (mem_singleton.mp last)

theorem tempName_not_member {s : Schema} {d : Descriptor} (built : s.build = .ok d) (n) :
    tempName n ∉ (members d).map Member.name ++ ["thisStruct", "this"] := by
  have head : ∀ {name : String}, name.toList.head? ≠ some '_' → tempName n ≠ name := by
    intro name differs
    refine ne_of_head ?_
    rw [tempName, String.toList_append]
    exact differs.symm
  intro member
  rcases mem_append.mp member with inside | fixed
  · rcases name_of_member inside with ⟨f, declared, same | same⟩ | same
    · have valid := Name.isValid_of_isValidField ((Schema.build_names built).2 f declared)
      rw [← same, not_isValid_tempName] at valid
      cases valid
    · exact tempName_ne_lengthName n _ same
    · exact head (by decide) same
  · simp only [mem_cons, not_mem_nil, or_false] at fixed
    rcases fixed with same | same
    · exact head (by decide) same
    · exact head (by decide) same

/-! ## Prototypes and definitions -/

theorem filter_of_nodup {α : Type} {name : α → String} {l : List α} (distinct : (l.map name).Nodup)
    {a : α} (member : a ∈ l) : l.filter (name · == name a) = [a] := by
  induction l with
  | nil => cases member
  | cons b rest ih =>
    rw [map_cons, nodup_cons] at distinct
    obtain ⟨apart, distinct⟩ := distinct
    rcases mem_cons.mp member with rfl | member
    · have none : rest.filter (name · == name a) = [] := by
        rw [filter_eq_nil_iff]
        intro c inside same
        exact apart (eq_of_beq same ▸ mem_map_of_mem inside)
      rw [filter_cons_of_pos (by simp), none]
    · have differs : name b ≠ name a := fun same => apart (same ▸ mem_map_of_mem member)
      rw [filter_cons_of_neg (by simpa using differs), ih distinct member]

variable {p : Program}

theorem helperNames_nodup (distinct : (p.helpers.map Helper.method).Nodup) :
    (p.helpers.map fun h => helperName p.stem h.method).Nodup := by
  have mapped := List.Nodup.map (f := helperName p.stem)
    (fun _ _ same => helperName_injective same) distinct
  rwa [map_map] at mapped

theorem query_ne_helperName (stem method) : "get_pass_id" ≠ helperName stem method := by
  intro same
  have joined := hasDoubleUnderscore_helperName stem method
  rw [← same] at joined
  exact absurd joined (by decide)

theorem prototype_once (distinct : (p.helpers.map Helper.method).Nodup) (member : h ∈ p.helpers) :
    named (helperName p.stem h.method) p.prototypes = [h.signature p.stem] := by
  have only := filter_of_nodup (helperNames_nodup distinct) member
  rw [named, Program.prototypes, filter_map, map_map]
  exact congrArg (List.map fun h => h.signature p.stem) only

theorem definition_once (distinct : (p.helpers.map Helper.method).Nodup) (member : h ∈ p.helpers)
    (apart : helperName p.stem h.method ≠ p.entry) :
    named (helperName p.stem h.method) p.definitions = [h.signature p.stem] := by
  have query := query_ne_helperName p.stem h.method
  have only := prototype_once distinct member
  rw [named] at only
  rw [named, Program.definitions, cons_append, filter_cons_of_neg (by simpa using query),
    filter_append, map_append, only]
  simp [apart.symm]

/-! ## Lines -/

/-- The declarations of the temporaries. -/
def Body.declarations (depth : Nat) (b : Body) : List String :=
  b.temps.zipIdx.map fun (t, n) => indent depth (t.clName ++ " " ++ tempName n ++ ";")

/-- The lines before the prototypes. -/
def Program.opening (p : Program) : List String :=
  (if p.extensions.isEmpty then [] else p.extensions.map Extension.pragma ++ [""])
    ++ "typedef struct This_s\x7b" :: (p.members.map fun m => "   " ++ m.decl ++ ";")
    ++ ["\x7dThis;", "int get_pass_id(This *this)\x7b", "   return this->passid;", "\x7d", ""]

/-- The lines of the kernel function before those of the method's body. -/
def Program.kernelOpening (p : Program) : List String :=
  ("__kernel void " ++ p.entry ++ "(") :: paramLines p.members
    ++ [")\x7b", "   This thisStruct;", "   This* this=&thisStruct;"]
    ++ (p.members.map fun m => "   this->" ++ m.name ++ " = " ++ m.name ++ ";") ++ ["   \x7b"]

/-- All prototypes come before all definitions of helpers, with the same heads, and in every
function the temporaries are declared first. -/
structure Program.LaidOut (p : Program) : Prop where
  lines : p.lines = p.opening ++ p.prototypes.map (fun f => f.2 ++ ";")
    ++ (if p.helpers.isEmpty then [] else [""])
    ++ p.helpers.flatMap (fun h => (h.signature p.stem ++ "\x7b") ::
      (h.body.declarations 1 ++ Stmt.allLines p.stem 1 h.body.stmts ++ ["\x7d", ""]))
    ++ p.kernelOpening ++ p.body.declarations 2 ++ Stmt.allLines p.stem 2 p.body.stmts
    ++ ["      return;", "   \x7d", "\x7d"]
  prototypes : ∀ h ∈ p.helpers,
    named (helperName p.stem h.method) p.prototypes = [h.signature p.stem]
  definitions : ∀ h ∈ p.helpers, helperName p.stem h.method ≠ p.entry →
    named (helperName p.stem h.method) p.definitions = [h.signature p.stem]

theorem Program.laidOut (distinct : (p.helpers.map Helper.method).Nodup) :
    p.LaidOut where
  lines := by
    have helpers : p.helpers.flatMap (Helper.lines p.stem) =
        p.helpers.flatMap fun h => (h.signature p.stem ++ "\x7b") ::
          (h.body.declarations 1 ++ Stmt.allLines p.stem 1 h.body.stmts ++ ["\x7d", ""]) := rfl
    have body : p.body.lines p.stem 2 =
        p.body.declarations 2 ++ Stmt.allLines p.stem 2 p.body.stmts := rfl
    simp only [Program.lines, helpers, body, Program.opening, Program.kernelOpening,
      Program.prototypes, map_map, Function.comp_def, append_assoc, cons_append,
      nil_append]
  prototypes _ member := prototype_once distinct member
  definitions _ member apart := definition_once distinct member apart

/-- A checked kernel is compiled to a program that is closed. Every access to the state is to a
declared member. Every call of a helper passes what the helper takes; the helper has one prototype
and, unless the entry point has its name, one definition, with the same parameters. The temporaries
of a function are declared once, at its top and with the type of what is stored into them; one
assignment stores into each, and on every path before it is read. Types are those with the locals in
sight as in the kernel, and also those with the locals in sight as in C if no initializer mentions
the local that it initializes. -/
theorem compiled_programs_closed {s : Schema} {d : Descriptor} (built : s.build = .ok d)
    (checked : Typing.check d = .ok ()) :
    ∃ p, program d = .ok p ∧ d.compile = .ok ⟨d.entry, p.text⟩ ∧ p.LaidOut ∧
      ∀ f ∈ p.functions, f.KeepsTemps ∧ f.Resolved p false ∧
        (Stmt.anyDeclares initializesItself f.body.stmts = false → f.Resolved p true) := by
  obtain ⟨p, emits⟩ := program_of_checked checked
  have face := interface_of_program built emits
  refine ⟨p, emits, compile_of_program checked emits,
    Program.laidOut (helpers_nodup built emits), ?_⟩
  intro f member
  rcases mem_append.mp member with helper | main
  · obtain ⟨h, inside, rfl⟩ := mem_map.mp helper
    obtain ⟨m, declared, made⟩ := method_of_helper emits inside
    obtain ⟨-, -, params, body⟩ := helper_eq_ok made
    refine Function.closed checked face (mem_cons_of_mem _ declared) body params ?_
    intro n given
    have head := congrArg (fun name : String => name.toList.head?) (mem_singleton.mp given)
    simp [tempName] at head
  · obtain rfl := mem_singleton.mp main
    obtain ⟨-, members, -, -, body⟩ := program_eq_ok emits
    refine Function.closed checked face mem_cons_self body (Schema.build_main built).1.symm ?_
    intro n given
    rw [members] at given
    exact tempName_not_member built n given

/-! ### A program with temporaries in the head of a loop -/

/-- `float pick(int i, float x) { return i > 0 ? x : a[0]; }`. -/
def pickHelper : Method where
  name := "pick"
  params := [⟨"i", .int⟩, ⟨"x", .float⟩]
  ret := some .float
  body := [.ret (some (.conditional (.binary .gt (.var "i") (.int 0)) (.var "x")
    (.element "a" (.int 0))))]

/-- `int n = a.length; for (int k = atomicAdd(s[0], 1); k < n && k++ < n; n--) a[k++] += pick(n++,
a[n]);`. -/
def pickMain : Method where
  name := "run"
  body :=
    [.declare "n" .int (some (.length "a")),
      .forLoop [.declare "k" .int (some (.atomic .add ⟨"s", some (.int 0)⟩ [.int 1]))]
        (some (.binary .and (.binary .lt (.var "k") (.var "n"))
          (.binary .lt (.step (.var "k") .inc false) (.var "n"))))
        [.step (.var "n") .dec false]
        [.expr (.assign (.element "a" (.step (.var "k") .inc false)) (some .add)
          (.call "pick" [.step (.var "n") .inc false, .element "a" (.var "n")]))]]

def pickSchema : Schema where
  name := "Pick"
  fields := [{ name := "a", type := .scalar .float, shape := .array },
    { name := "s", type := .atomic .int, shape := .array }]
  methods := [pickHelper, pickMain]

def pickKernel : Descriptor where
  name := "Pick"
  fields := [⟨"a", .scalar .float, .array, .global, .readWrite⟩,
    ⟨"s", .atomic .int, .array, .global, .readWrite⟩]
  main := pickMain
  helpers := [pickHelper]

theorem picking_program_closed :
    pickSchema.build = .ok pickKernel ∧ Typing.check pickKernel = .ok () ∧
      ∃ p, program pickKernel = .ok p ∧
        p.members.map Member.name = ["a", "a__length", "s", "passid"] ∧
        p.body.temps = [.int, .int, .float, .int, .float] ∧ p.LaidOut ∧
        ∀ f ∈ p.functions, f.KeepsTemps ∧ f.Resolved p true := by
  have built : pickSchema.build = .ok pickKernel := rfl
  have checked : Typing.check pickKernel = .ok () := by decide
  obtain ⟨p, emits, -, laid, each⟩ := compiled_programs_closed built checked
  have apart :
      (p.functions.all fun f => !Stmt.anyDeclares initializesItself f.body.stmts) = true := by
    cases emits
    rfl
  have members : p.members.map Member.name = ["a", "a__length", "s", "passid"] := by
    cases emits
    decide
  have temps : p.body.temps = [.int, .int, .float, .int, .float] := by
    cases emits
    rfl
  refine ⟨built, checked, p, emits, members, temps, laid, fun f member => ?_⟩
  have own := all_eq_true.mp apart f member
  exact ⟨(each f member).1, (each f member).2.2 (by simpa using own)⟩

/-! ### An entry point with the name of a helper, and an argument behind its own local -/

/-- A kernel whose entry point has the name of the function of its helper. -/
def clashingSchema : Schema where
  name := "K"
  methods := [{ name := "K__f", body := [.expr (.call "f" [])] }, { name := "f", body := [] }]
  entry := "K__f"

def clashingKernel : Descriptor where
  name := "K"
  fields := []
  main := { name := "K__f", body := [.expr (.call "f" [])] }
  helpers := [{ name := "f", body := [] }]

/-- `float f(int n) { return (float) n; }`. -/
def floatOfInt : Method where
  name := "f"
  params := [⟨"n", .int⟩]
  ret := some .float
  body := [.ret (some (.cast .float (.var "n") false))]

/-- `int x = 1; { float x = f(x); }`. -/
def shadowedMain : Method where
  name := "run"
  body := [.declare "x" .int (some (.int 1)),
    .block [.declare "x" .float (some (.call "f" [.var "x"]))]]

def shadowedSchema : Schema where
  name := "K"
  methods := [shadowedMain, floatOfInt]

def shadowedKernel : Descriptor where
  name := "K"
  fields := []
  main := shadowedMain
  helpers := [floatOfInt]

/-- The helper that is called has two definitions; and with the locals in sight as in C, a call
passes a `float` for an `int`. -/
theorem calls_not_resolved :
    (clashingSchema.build = .ok clashingKernel ∧ Typing.check clashingKernel = .ok () ∧
      ∃ p, program clashingKernel = .ok p ∧
        (∃ f ∈ p.functions, f.sites true = [([], .call (.helper "f") [])]) ∧
        named (helperName p.stem "f") p.prototypes = ["void K__f(This *this)"] ∧
        named (helperName p.stem "f") p.definitions =
          ["void K__f(This *this)", "__kernel void K__f("]) ∧
    shadowedSchema.build = .ok shadowedKernel ∧ Typing.check shadowedKernel = .ok () ∧
      ∃ p, program shadowedKernel = .ok p ∧ ∃ f ∈ p.functions, ∃ site ∈ f.sites true,
        site.2 = .call (.helper "f") [.var "x"] ∧
        Expr.kinds? p f.body.temps site.1 [.var "x"] = some [.scalar .float] ∧
        (p.helpers.map fun h => h.params.map Param.type) = [[.int]] := by
  constructor
  · refine ⟨rfl, by decide, _, rfl, ⟨_, mem_append_right _ mem_cons_self, rfl⟩, ?_, ?_⟩
    · decide
    · decide
  · refine ⟨rfl, by decide, _, rfl, _, mem_append_right _ mem_cons_self,
      ([("x", .float), ("x", .int)], .call (.helper "f") [.var "x"]), ?_, rfl, rfl, rfl⟩
    exact mem_of_getElem? (i := 1) rfl

end GridKernel.Target
